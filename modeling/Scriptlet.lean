import Scriptlet.Main
import Scriptlet.CommandLine.Reply
import Scriptlet.Inspect.Value
import Scriptlet.Proofs.Climbing
import Scriptlet.Proofs.Labels
import Scriptlet.Proofs.Footprint
import Scriptlet.Proofs.Literal
import Scriptlet.Proofs.Session
import Scriptlet.Proofs.Reached
import Scriptlet.Proofs.Gaps
import Scriptlet.Proofs.Tiling
import Scriptlet.Proofs.Layout
import Scriptlet.Proofs.Again
import Scriptlet.Proofs.Commands
import Scriptlet.Proofs.Failures
import Scriptlet.Proofs.Host
import Scriptlet.Proofs.Watched
import Scriptlet.Proofs.Reprinted
import Scriptlet.Proofs.Blamed
import Scriptlet.Proofs.Unclosed
import Scriptlet.Proofs.Resumed
import Scriptlet.Proofs.Interchange
import Scriptlet.Proofs.LastWins
import Scriptlet.Proofs.Handles
import Scriptlet.Proofs.Exact
import Scriptlet.Proofs.Positions
import Scriptlet.Proofs.LineTable
import Scriptlet.Proofs.Entered
import Scriptlet.Proofs.Located
import Scriptlet.Proofs.Folded
import Scriptlet.Proofs.Offsets
import Scriptlet.Proofs.Restored
