import Breadboard.Main
import Breadboard.Proofs.Archive.Accepted
import Breadboard.Proofs.Session.Oracle
import Breadboard.Proofs.Session.Pairing
import Breadboard.Proofs.Session.Completion
import Breadboard.Proofs.Sketch.Substitution
import Breadboard.Proofs.Session.Restart
import Breadboard.Proofs.Session.Driver
import Breadboard.Proofs.Session.Nodes
import Breadboard.Proofs.Memory.Refusal
import Breadboard.Proofs.Session.Result
import Breadboard.Proofs.Sketch.MacroTable
import Breadboard.Proofs.Session.Compound
import Breadboard.Proofs.Session.Dimensions
import Breadboard.Proofs.Machine.PointerOrder
import Breadboard.Proofs.Session.Characters
import Breadboard.Proofs.Session.Selection
import Breadboard.Proofs.Archive.Verdict
import Breadboard.Proofs.Session.Exposure
import Breadboard.Proofs.Machine.Truth
import Breadboard.Proofs.Session.StaticTypes
import Breadboard.Proofs.Sketch.Ending
import Breadboard.Proofs.Sketch.Vocabulary
import Breadboard.Proofs.CommandLine.Clock
import Breadboard.Proofs.Machine.Printing
import Breadboard.Proofs.Machine.Random
