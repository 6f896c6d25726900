import RcScript.Scanner.Action
import RcScript.Session.Request
import RcScript.Session.RoundTrip
import RcScript.Files.Directory
import RcScript.Version
import RcScript.Main
import RcScript.Proofs.Session.Accepted
import RcScript.Proofs.Session.Composed
import RcScript.Proofs.RoundTrip.Canonical
import RcScript.Proofs.RoundTrip.Dump
import RcScript.Proofs.Scanner.Listing
import RcScript.Proofs.Scanner.Orderly
import RcScript.Proofs.Scanner.Offset
import RcScript.Proofs.Scanner.Laid
import RcScript.Proofs.Reader.Proceeds
import RcScript.Proofs.Reader.Commands
import RcScript.Proofs.Reader.Progress
import RcScript.Proofs.Session.Between
import RcScript.Proofs.Session.Bounded
import RcScript.Proofs.Session.Drivers
import RcScript.Proofs.Session.Final
import RcScript.Proofs.Session.Completed
import RcScript.Proofs.RoundTrip.LineList
import RcScript.Proofs.Checker.Console
import RcScript.Proofs.CommandLine.Unreadable
import RcScript.Proofs.Session.LineEnds
import RcScript.Proofs.RoundTrip.Forms
import RcScript.Proofs.Scanner.Spaced
import RcScript.Proofs.Session.Legible
import RcScript.Proofs.Session.LineLists
import RcScript.Proofs.Scanner.Finished
import RcScript.Proofs.Scanner.Performed
import RcScript.Proofs.Stmt.Holes
