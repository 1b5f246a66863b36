import MailFilter.CommandLine.Outcome
import MailFilter.Files
import MailFilter.Main
import MailFilter.Proofs.Lexeme.Literals
import MailFilter.Registry
import MailFilter.Script.Alike
import MailFilter.Script.File
import MailFilter.Script.Layout
import MailFilter.Script.Problem
import MailFilter.Script.Record
import MailFilter.Script.Usage
import MailFilter.Settings
import MailFilter.Statement
import MailFilter.Store.Audit
import MailFilter.Store.Edit
import MailFilter.Store.Load
import MailFilter.Store.Report
import MailFilter.Text.Case
import MailFilter.Text.Charset
import MailFilter.Text.Integer
import MailFilter.Tokens
import MailFilter.Value.Binary64
import MailFilter.Value.Json
import MailFilter.Value.Yaml.Document
import MailFilter.Proofs.Lexeme.Words
import MailFilter.Proofs.Script.Outline
import MailFilter.Proofs.Script.Printable
import MailFilter.Proofs.Text.Lowering
import MailFilter.Proofs.Layout.Chunk
import MailFilter.Proofs.Layout.Items
import MailFilter.Proofs.Reading.Steps
import MailFilter.Proofs.Reading.Commands
import MailFilter.Proofs.Reading.Script
import MailFilter.Proofs.Reading.Invariant
import MailFilter.Proofs.Reading.Depth
import MailFilter.Proofs.Reading.Failures
import MailFilter.Proofs.Layout.Outline
import MailFilter.Proofs.RoundTrip
import MailFilter.Proofs.RuleNames
import MailFilter.Proofs.Store.Changes
import MailFilter.Proofs.Store.Operations
import MailFilter.Proofs.Store.Loading
import MailFilter.Proofs.Store.Runs
import MailFilter.Proofs.Store.Audit
import MailFilter.Proofs.Store.Frame
import MailFilter.Proofs.Store.Front
import MailFilter.Proofs.Store.RequireFirst
import MailFilter.Proofs.Store.Verdict
import MailFilter.Proofs.Store.Rooted
import MailFilter.Proofs.Store.Sound
import MailFilter.Proofs.Store.Findings
import MailFilter.Proofs.Store.Marks
import MailFilter.Proofs.Store.Levels
import MailFilter.Proofs.Store.SharedTests
import MailFilter.Proofs.Store.Sharing
import MailFilter.Proofs.Store.Heights
import MailFilter.Proofs.Script.Texts
import MailFilter.Proofs.Store.Written
import MailFilter.Proofs.Store.Planting
import MailFilter.Proofs.Store.Capabilities
import MailFilter.Proofs.Script.Sources
import MailFilter.Proofs.Store.Saving
import MailFilter.Proofs.Reading.Comments
import MailFilter.Proofs.Reading.Grammar
import MailFilter.Proofs.Reading.Unambiguous
import MailFilter.Proofs.Reading.Acceptance
import MailFilter.Proofs.Reading.Derivations
import MailFilter.Proofs.Reading.Language
import MailFilter.Proofs.Reading.Shapes
import MailFilter.Proofs.Reading.CommentOrder
import MailFilter.Proofs.Script.Nodes
import MailFilter.Proofs.Script.Signatures
import MailFilter.Proofs.Script.Gating
import MailFilter.Proofs.Script.Validity
import MailFilter.Proofs.Script.Unmarked
import MailFilter.Proofs.Lexeme.Characters
import MailFilter.Proofs.Lexeme.Context
import MailFilter.Proofs.Script.Leaves
import MailFilter.Proofs.Reading.Leaves
import MailFilter.Proofs.Layout.Characters
import MailFilter.Proofs.Encoding
import MailFilter.Proofs.CommandLine.Rewriting
import MailFilter.Proofs.Value.Json
import MailFilter.Proofs.Script.Record
import MailFilter.Proofs.Script.Rebuilt
import MailFilter.Proofs.Store.Trees
import MailFilter.Proofs.Text.Trimming
import MailFilter.Proofs.Script.Checked
import MailFilter.Proofs.Store.Arrivals
import MailFilter.Proofs.Store.Lint
import MailFilter.Proofs.Store.Declaring
import MailFilter.Proofs.Store.Requiring
import MailFilter.Proofs.Store.Anchored
import MailFilter.Proofs.Store.Edited
import MailFilter.Proofs.Store.ExactLimit
import MailFilter.Proofs.Store.Exchange
import MailFilter.Proofs.Store.Surroundings
import MailFilter.Proofs.Store.Backlinks
import MailFilter.Proofs.Store.Limits
import MailFilter.Proofs.Store.Places
import MailFilter.Proofs.Store.Moves
import MailFilter.Proofs.Store.Naming
import MailFilter.Proofs.Script.Granted
import MailFilter.Proofs.Store.Granted
import MailFilter.Proofs.Store.Reinserting
import MailFilter.Proofs.Lexeme.Lossless
import MailFilter.Proofs.LineEndings
import MailFilter.Proofs.Statement
import MailFilter.Proofs.Lexeme.Truncation
import MailFilter.Proofs.Reading.Registries
import MailFilter.Proofs.Offsets
