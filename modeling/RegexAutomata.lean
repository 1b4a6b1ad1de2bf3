import RegexAutomata.Main
import RegexAutomata.Proofs.Automaton.Breadth
import RegexAutomata.Proofs.Automaton.Closure
import RegexAutomata.Proofs.Automaton.Languages
import RegexAutomata.Proofs.Regex.Balance
import RegexAutomata.Proofs.Regex.Chains
import RegexAutomata.Proofs.Regex.Closing
import RegexAutomata.Proofs.Regex.Denotation
import RegexAutomata.Proofs.Regex.Isolation
import RegexAutomata.Proofs.Regex.Journal
import RegexAutomata.Proofs.Regex.Letters
import RegexAutomata.Proofs.Regex.Size
import RegexAutomata.Proofs.Rendering.Drawing
import RegexAutomata.Proofs.Rendering.Listing
import RegexAutomata.Proofs.Shell.Quiet
import RegexAutomata.Proofs.Workspace.Refusals
import RegexAutomata.Proofs.Workspace.Snapshot
import RegexAutomata.Regex.Script
