import Ontogram.Decimal
import Ontogram.Diagram
import Ontogram.Diagram.Read
import Ontogram.Encoding
import Ontogram.Encoding.AxiomKind
import Ontogram.Encoding.Emission
import Ontogram.Expression
import Ontogram.Expression.Group
import Ontogram.Expression.Lower
import Ontogram.Expression.Parse
import Ontogram.Expression.Token
import Ontogram.Firsts
import Ontogram.Json
import Ontogram.Outline
import Ontogram.Query
import Ontogram.Query.Clause
import Ontogram.Query.Frame
import Ontogram.Query.Parse
import Ontogram.Query.Run
import Ontogram.Query.Session
import Ontogram.Query.Store
import Ontogram.Query.Template
import Ontogram.Query.Token
import Ontogram.Resolver
import Ontogram.Service
import Ontogram.Settings
import Ontogram.Settings.Document
import Ontogram.Settings.Encode
import Ontogram.Table
import Ontogram.Term
import Ontogram.Text.Basic
import Ontogram.Text.Escape
import Ontogram.Text.Lexeme
import Ontogram.Text.Quoted
import Ontogram.Text.Regular
import Ontogram.Text.Word
import Ontogram.Turtle
import Ontogram.Value
import Ontogram.Vocabulary
import Ontogram.Yaml.Block
import Ontogram.Yaml.Content
import Ontogram.Yaml.Fault
import Ontogram.Yaml.Fold
import Ontogram.Yaml.Lexeme
import Ontogram.Yaml.Moment
import Ontogram.Yaml.Node
import Ontogram.Yaml.Number
import Ontogram.Yaml.Property
import Ontogram.Yaml.Tag
import Ontogram.Yaml.Token
import Ontogram.Yaml.Write
import Ontogram.Proofs.Join
import Ontogram.Proofs.Solution
import Ontogram.Proofs.NestedLoops
import Ontogram.Proofs.Answer
import Ontogram.Proofs.Ascii
import Ontogram.Proofs.Balanced
import Ontogram.Proofs.Canonical
import Ontogram.Proofs.Grammar
import Ontogram.Proofs.Keyword
import Ontogram.Proofs.Reading
import Ontogram.Proofs.Choice
import Ontogram.Proofs.Comments
import Ontogram.Proofs.QueryReading
import Ontogram.Proofs.Contribution
import Ontogram.Proofs.Forest
import Ontogram.Proofs.Renaming
import Ontogram.Proofs.Budget
import Ontogram.Proofs.CanvasOrder
import Ontogram.Proofs.ClauseWidening
import Ontogram.Proofs.TabStops
import Ontogram.Proofs.PatternOrder
import Ontogram.Proofs.MoreFacts
import Ontogram.Proofs.TurtleReading
import Ontogram.Proofs.Lookup
import Ontogram.Proofs.Response
import Ontogram.Proofs.StatementLines
import Ontogram.Proofs.Ending
import Ontogram.Proofs.QueryReply
import Ontogram.Proofs.OutlineAgreement
import Ontogram.Proofs.ValueLookup
import Ontogram.Proofs.ConstantNames
import Ontogram.Proofs.LiteralData
import Ontogram.Proofs.Growth
import Ontogram.Proofs.RelationPass
import Ontogram.Proofs.PropertyKinds
import Ontogram.Proofs.ExpressionSpacing
import Ontogram.Proofs.Operands
import Ontogram.Proofs.ImplicitRestriction
import Ontogram.Proofs.WellFormed
import Ontogram.Proofs.TokenTree
import Ontogram.Proofs.PreOrder
import Ontogram.Proofs.QuantifiedAxiom
import Ontogram.Proofs.DistinctRows
import Ontogram.Proofs.LexicalMatch
import Ontogram.Proofs.PrivateNames
import Ontogram.Proofs.EncodedTerms
import Ontogram.Proofs.NodeText
import Ontogram.Proofs.StoredNodes
import Ontogram.Proofs.OutlineLabels
import Ontogram.Proofs.LiteralReading
import Ontogram.Proofs.StatedLiterals
import Ontogram.Proofs.QueryRoundTrip
import Ontogram.Proofs.LongestBalanced
import Ontogram.Proofs.CallTree
import Ontogram.Proofs.ExpressionToken
import Ontogram.Proofs.SettingsKinds
import Ontogram.Proofs.SettingsDocument
import Ontogram.Proofs.LexicalValue
import Ontogram.Proofs.LongestNamespace
