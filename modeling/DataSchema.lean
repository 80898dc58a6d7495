import DataSchema.Fingerprint
import DataSchema.Frame
import DataSchema.Registry.Rendering
import DataSchema.Workspace
import DataSchema.Graph
import DataSchema.Store.Outline
import DataSchema.Value.Nesting
import DataSchema.Proofs.Lockstep
import DataSchema.Proofs.Acceptance
import DataSchema.Proofs.Store.Lockstep
import DataSchema.Proofs.Agreement
import DataSchema.Proofs.Threshold
import DataSchema.Proofs.Height
import DataSchema.Proofs.Store.Tree
import DataSchema.Proofs.Build
import DataSchema.Proofs.Store.Height
import DataSchema.Proofs.Store.Representation
import DataSchema.Proofs.Store.Simulation
import DataSchema.Proofs.Store.Acceptance
import DataSchema.Proofs.Store.Building
import DataSchema.Proofs.Workspace
import DataSchema.Proofs.Composition
import DataSchema.Proofs.Fingerprint
import DataSchema.Proofs.Location
import DataSchema.Proofs.Store.Safety
import DataSchema.Proofs.Store.Canonical
import DataSchema.Proofs.Store.Comparison
import DataSchema.Proofs.Distinction
import DataSchema.Proofs.Store.Cycle
import DataSchema.Proofs.Settings
import DataSchema.Proofs.Registry
import DataSchema.Proofs.Entries
import DataSchema.Proofs.Ceiling
import DataSchema.Proofs.Number
import DataSchema.Proofs.Store.Making
import DataSchema.Proofs.FirstFailure
import DataSchema.Proofs.Store.Separation
import DataSchema.Proofs.Selection
import DataSchema.Proofs.Store.Literal
import DataSchema.Proofs.Store.Declared
import DataSchema.Proofs.Store.Container
import DataSchema.Proofs.Store.Context
import DataSchema.Proofs.Rearrangement
import DataSchema.Proofs.Store.Rearrangement
import DataSchema.Proofs.Fields
import DataSchema.Proofs.Frame
import DataSchema.Proofs.Overlay
import DataSchema.Proofs.Store.Extension
import DataSchema.Proofs.Store.Constructor
import DataSchema.Proofs.Choices
import DataSchema.Proofs.Store.Choices
import DataSchema.Proofs.Word
import DataSchema.Proofs.Displacement
