import BlockScript.Main
import BlockScript.Proofs.Reachability
import BlockScript.Proofs.Scoping
import BlockScript.Proofs.Acceptance
import BlockScript.Proofs.SessionLines
import BlockScript.Proofs.ProperRuns
import BlockScript.Proofs.Renaming
import BlockScript.Proofs.Nesting
import BlockScript.Proofs.Repetition
import BlockScript.Proofs.Respelling
import BlockScript.Proofs.Synonyms
import BlockScript.Proofs.Shadowing
import BlockScript.Proofs.Spelling
import BlockScript.Proofs.Incidents
import BlockScript.Proofs.Legibility
import BlockScript.Proofs.ElseIf
import BlockScript.Proofs.Recovery
import BlockScript.Proofs.Positions
import BlockScript.Proofs.ErrorOrder
import BlockScript.Proofs.Erasure
import BlockScript.Proofs.LexicalErrors
import BlockScript.Proofs.Progress
import BlockScript.Proofs.CommentEnds
