import SceneScript.Datum
import SceneScript.Sink
import SceneScript.Catalog
import SceneScript.Composition.Edit
import SceneScript.Composition.Scene
import SceneScript.Value.Equality
import SceneScript.Proofs.KeyOrder
import SceneScript.Proofs.ValueTree
import SceneScript.Proofs.NullEntries
import SceneScript.Proofs.LayoutSwitches
import SceneScript.Proofs.NumberText
import SceneScript.Proofs.ReadBack
import SceneScript.Proofs.SceneText
import SceneScript.Proofs.Indentation
import SceneScript.Proofs.NumberReading
import SceneScript.Proofs.NormalForm
import SceneScript.Proofs.SceneReading
import SceneScript.Composition.Command
import SceneScript.Proofs.Spelling
import SceneScript.Proofs.CompositionEdits
import SceneScript.Proofs.FailedEdits
import SceneScript.Proofs.InsertionOrder
import SceneScript.Proofs.References
import SceneScript.Proofs.NamesApart
import SceneScript.Proofs.ExactOrder
import SceneScript.Proofs.KeyframeOrder
import SceneScript.Proofs.FrameMap
import SceneScript.Proofs.AnimatedInputs
import SceneScript.Proofs.ExactKeys
import SceneScript.Table.Change
import SceneScript.Proofs.EntryMap
import SceneScript.Proofs.ValueEquality
import SceneScript.Proofs.HandleLocality
import SceneScript.Proofs.HandleRule
import SceneScript.Proofs.ResolvedAgain
import SceneScript.Proofs.RoundingBounds
import SceneScript.Proofs.HandleBounds
import SceneScript.Proofs.FiniteHandles
import SceneScript.Proofs.LineBreaks
import SceneScript.Proofs.Nesting
import SceneScript.Proofs.KeyframeLines
import SceneScript.Proofs.OrderedTables
import SceneScript.Proofs.ShortestDigits
import SceneScript.Proofs.DecimalText
import SceneScript.Proofs.MapCalls
import SceneScript.Proofs.IntegerKeys
import SceneScript.Proofs.Registration
import SceneScript.Proofs.WiredInputs
import SceneScript.Proofs.StandingNodes
import SceneScript.Proofs.AdditionOrder
import SceneScript.Proofs.DataValues
import SceneScript.Proofs.PlainValues
import SceneScript.Proofs.PublishedPoints
import SceneScript.Proofs.SinkOffers
import SceneScript.Macro.Command
import SceneScript.Proofs.MacroCommands
import SceneScript.Proofs.ExposedInputs
import SceneScript.Proofs.ExposedOutputs
import SceneScript.Proofs.TreeAddresses
import SceneScript.Proofs.TraceOrder
import SceneScript.Proofs.KeyDigests
import SceneScript.Proofs.SinglePrecision
