import StaleRead.Main
import StaleRead.Proofs.Analysis.Account
import StaleRead.Proofs.Analysis.Growth
import StaleRead.Proofs.Command.Check
import StaleRead.Proofs.Comments.Evidence
import StaleRead.Proofs.Component.Nearest
import StaleRead.Proofs.Flow.Confluence
import StaleRead.Proofs.Flow.Enumeration
import StaleRead.Proofs.Flow.Tables
import StaleRead.Proofs.Members.Addition
import StaleRead.Proofs.Members.Isolation
import StaleRead.Proofs.Scope.Currying
import StaleRead.Proofs.Scope.Hoisting
import StaleRead.Proofs.Scope.Resolution
import StaleRead.Proofs.Scope.Switch
import StaleRead.Proofs.Shape.Enclosing
import StaleRead.Proofs.Shape.Binding
import StaleRead.Settings.Session
import StaleRead.Proofs.FileSystem.Entries
import StaleRead.Proofs.FileSystem.Discovery
import StaleRead.Proofs.FileSystem.Extensions
import StaleRead.Proofs.FileSystem.Changes
import StaleRead.Proofs.Finding.History
import StaleRead.Proofs.Text.Utf8
import StaleRead.Proofs.Text.Glyph
import StaleRead.Proofs.Finding.Place
import StaleRead.Proofs.Analysis.Sourced
import StaleRead.Proofs.Analysis.Ranges
import StaleRead.Proofs.Text.CommaList
import StaleRead.Proofs.Settings.Session
import StaleRead.Proofs.Definedness.Analysis
