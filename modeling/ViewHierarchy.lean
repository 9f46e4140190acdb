import ViewHierarchy.Main
import ViewHierarchy.Proofs.Export.JsonReading
import ViewHierarchy.Proofs.Export.OutlineReading
import ViewHierarchy.Proofs.Source.Joining
import ViewHierarchy.Proofs.View.Assembling
import ViewHierarchy.Proofs.View.Chain
import ViewHierarchy.Proofs.View.Declaring
import ViewHierarchy.Proofs.View.Frame
import ViewHierarchy.Proofs.View.Joining
import ViewHierarchy.Proofs.View.Progress
import ViewHierarchy.Proofs.View.Resplitting
import ViewHierarchy.Proofs.View.Trailing
import ViewHierarchy.Proofs.View.Use
import ViewHierarchy.Proofs.Window.Exporting
import ViewHierarchy.Window.Drawing
import ViewHierarchy.Window.Layout
import ViewHierarchy.Workspace
import ViewHierarchy.Proofs.Source.Matching
import ViewHierarchy.Proofs.View.Settled
import ViewHierarchy.Proofs.Source.Interpolation
import ViewHierarchy.Proofs.Source.LineString
import ViewHierarchy.Proofs.Source.Splitting
import ViewHierarchy.Proofs.View.Commenting
import ViewHierarchy.Proofs.View.Calls
import ViewHierarchy.Proofs.View.Shortening
import ViewHierarchy.Proofs.View.Counting
import ViewHierarchy.Proofs.View.Separating
import ViewHierarchy.Proofs.View.Padding
import ViewHierarchy.Proofs.View.Parameter
import ViewHierarchy.Proofs.Source.Slicing
import ViewHierarchy.Proofs.View.Configuring
import ViewHierarchy.Proofs.View.Ranking
import ViewHierarchy.Proofs.Window.Cycling
import ViewHierarchy.Proofs.View.Advancing
