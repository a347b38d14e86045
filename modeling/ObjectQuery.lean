import ObjectQuery.Calendar.Date
import ObjectQuery.Calendar.Timestamp
import ObjectQuery.Catalog.Basic
import ObjectQuery.Catalog.Document
import ObjectQuery.Catalog.Subtypes
import ObjectQuery.Compile.Connective
import ObjectQuery.Compile.Context
import ObjectQuery.Compile.Elements
import ObjectQuery.Compile.Error
import ObjectQuery.Compile.Leaf
import ObjectQuery.Compile.Polarity
import ObjectQuery.Compile.Request
import ObjectQuery.Compile.Route
import ObjectQuery.Compile.SortOrder
import ObjectQuery.Decimal.Notation
import ObjectQuery.Decimal.Range
import ObjectQuery.Decimal.Scaling
import ObjectQuery.Decimal.Shortest
import ObjectQuery.Identifier
import ObjectQuery.Json.Basic
import ObjectQuery.Json.Printer
import ObjectQuery.Json.Reader
import ObjectQuery.KeyTable
import ObjectQuery.Layout
import ObjectQuery.Layout.Document
import ObjectQuery.Path
import ObjectQuery.Plan.Column
import ObjectQuery.Plan.Selection
import ObjectQuery.Plan.Test
import ObjectQuery.Predicate
import ObjectQuery.QualifiedName
import ObjectQuery.Schema
import ObjectQuery.Serial.Catalog
import ObjectQuery.Serial.Compiled
import ObjectQuery.Serial.Layout
import ObjectQuery.Serial.Path
import ObjectQuery.Serial.Predicate
import ObjectQuery.Serial.Statement
import ObjectQuery.Serial.Value
import ObjectQuery.Sql.Condition
import ObjectQuery.Sql.Select
import ObjectQuery.Sql.SetQuery
import ObjectQuery.Text.Blank
import ObjectQuery.Text.Numeral
import ObjectQuery.Text.Stored
import ObjectQuery.Value
import ObjectQuery.Yaml.Cursor
import ObjectQuery.Yaml.Fields
import ObjectQuery.Yaml.Node
import ObjectQuery.Yaml.Resolution
import ObjectQuery.Yaml.Scalar
import ObjectQuery.Yaml.Token
import ObjectQuery.Proofs.Outcome
import ObjectQuery.Proofs.SetAlgebra
import ObjectQuery.Proofs.NormalForm
import ObjectQuery.Proofs.Link
import ObjectQuery.Proofs.Chain
import ObjectQuery.Proofs.Complement
import ObjectQuery.Proofs.NullCheck
import ObjectQuery.Proofs.Declared
import ObjectQuery.Proofs.ElementScope
import ObjectQuery.Proofs.Issued
import ObjectQuery.Proofs.AliasScope
import ObjectQuery.Proofs.Fill
import ObjectQuery.Proofs.Inlined
import ObjectQuery.Proofs.Ordinary
import ObjectQuery.Proofs.Placeholders
import ObjectQuery.Proofs.ValueFree
import ObjectQuery.Proofs.Trusted
import ObjectQuery.Proofs.Grouped
import ObjectQuery.Proofs.WellFormed
import ObjectQuery.Proofs.Untainted
import ObjectQuery.Proofs.Decided
import ObjectQuery.Proofs.Admission
import ObjectQuery.Proofs.BoundValue
import ObjectQuery.Proofs.Strictness
import ObjectQuery.Proofs.Resolved
import ObjectQuery.Proofs.Literals
import ObjectQuery.Proofs.Parameters
import ObjectQuery.Proofs.Built
import ObjectQuery.Proofs.Calendar
import ObjectQuery.Proofs.Shape
import ObjectQuery.Proofs.Sorting
import ObjectQuery.Proofs.SharedRestriction
import ObjectQuery.Proofs.Ancestry
import ObjectQuery.Proofs.Extension
import ObjectQuery.Proofs.Listing
import ObjectQuery.Proofs.Decoded
import ObjectQuery.Proofs.JsonText
import ObjectQuery.Proofs.Serialized
import ObjectQuery.Proofs.Contained
import ObjectQuery.Proofs.Division
import ObjectQuery.Proofs.ContainedValues
import ObjectQuery.Proofs.FieldPaths
import ObjectQuery.Proofs.ShownRows
import ObjectQuery.Proofs.ContainedObjects
import ObjectQuery.Proofs.TypeClosure
import ObjectQuery.Proofs.Traversal
import ObjectQuery.Proofs.SortStatement
import ObjectQuery.Proofs.UniqueReading
import ObjectQuery.Proofs.SameElements
import ObjectQuery.Proofs.Reading
import ObjectQuery.Proofs.Precedence
