import Polyglot.Options.Document
import Polyglot.Proofs.EscapedOutput
import Polyglot.Proofs.AgreeingScopes
import Polyglot.Proofs.EvaluatorSessions
import Polyglot.Proofs.SourceReading
import Polyglot.Proofs.RestoredPrints
import Polyglot.Proofs.Sandboxing
import Polyglot.Proofs.ScriptMeaning
import Polyglot.Proofs.WellFormedPhrases
import Polyglot.Proofs.JoinedRendering
import Polyglot.Proofs.ConservativeExtensions
import Polyglot.Proofs.UnrolledLoops
import Polyglot.Proofs.SourceLines
import Polyglot.Proofs.ConciseReading
import Polyglot.Proofs.CallShape
import Polyglot.Proofs.ScriptRows
import Polyglot.Proofs.TokenSpelling
import Polyglot.Proofs.RawSections
import Polyglot.Proofs.TokenStreams
import Polyglot.Proofs.LeftmostPlaceholders
import Polyglot.Proofs.ExactArithmetic
import Polyglot.Proofs.AcceptedBodies
import Polyglot.Proofs.SpacedLexemes
import Polyglot.Proofs.Termination
