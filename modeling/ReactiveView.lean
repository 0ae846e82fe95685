import ReactiveView.Code.Tagged
import ReactiveView.Markup.Compile
import ReactiveView.Markup.Rule
import ReactiveView.Script.Run
import ReactiveView.Proofs.Code.Literal
import ReactiveView.Proofs.Code.Unambiguous
import ReactiveView.Proofs.Code.StringValue
import ReactiveView.Proofs.Code.Tagged
import ReactiveView.Proofs.Markup.Parsed
import ReactiveView.Proofs.Markup.Viable
import ReactiveView.Proofs.Markup.Scanned
import ReactiveView.Proofs.Markup.RoundTrip
import ReactiveView.Proofs.Markup.Faults
import ReactiveView.Proofs.Markup.Lowered
import ReactiveView.Proofs.Markup.Source
import ReactiveView.Proofs.Markup.Recovery
import ReactiveView.Proofs.Markup.Literals
import ReactiveView.Proofs.Markup.Walk
import ReactiveView.Proofs.Markup.Filled
import ReactiveView.Proofs.Markup.Fused
import ReactiveView.Proofs.Markup.Tour
import ReactiveView.Proofs.Markup.Calls
import ReactiveView.Proofs.Effects.Agreement
import ReactiveView.Proofs.Effects.Updates
import ReactiveView.Proofs.Effects.Deeds
import ReactiveView.Proofs.Effects.Stopping
import ReactiveView.Proofs.Effects.Exits
import ReactiveView.Proofs.Effects.Hosts
import ReactiveView.Proofs.Effects.Dependencies
import ReactiveView.Proofs.Effects.Termination
import ReactiveView.Proofs.Effects.Passes
import ReactiveView.Proofs.Effects.Serving
import ReactiveView.Proofs.Effects.Paths
import ReactiveView.Proofs.Store.WriteBack
import ReactiveView.Proofs.Scopes.Order
import ReactiveView.Proofs.Scopes.Disposal
import ReactiveView.Proofs.Derived.History
import ReactiveView.Proofs.Derived.Crossing
import ReactiveView.Proofs.Number
import ReactiveView.Proofs.Rendering.Scene
import ReactiveView.Proofs.Rendering.Dress
import ReactiveView.Proofs.Rendering.Place
import ReactiveView.Proofs.Rendering.Mount
import ReactiveView.Proofs.Rendering.Patch
import ReactiveView.Proofs.Rendering.Refusal
import ReactiveView.Proofs.Rendering.Containers
import ReactiveView.Proofs.Rendering.Mirror
import ReactiveView.Proofs.Rendering.Reflection
import ReactiveView.Proofs.Rendering.Identity
import ReactiveView.Proofs.Rendering.Html
import ReactiveView.Proofs.Rendering.Handles
import ReactiveView.Proofs.Rendering.Fragments
import ReactiveView.Proofs.Rendering.Operations
import ReactiveView.Proofs.Rendering.Performed
import ReactiveView.Proofs.Rendering.Reuse
import ReactiveView.Proofs.Rendering.Teardown
import ReactiveView.Proofs.Rendering.LastProps
import ReactiveView.Proofs.Live.Endings
import ReactiveView.Proofs.Live.Template
import ReactiveView.Proofs.Live.Effect
import ReactiveView.Proofs.Live.Session
import ReactiveView.Proofs.Events.Stamps
import ReactiveView.Proofs.Events.Course
import ReactiveView.Proofs.Events.Clicks
import ReactiveView.Proofs.Events.Bindings
import ReactiveView.Proofs.Events.Lineage
import ReactiveView.Proofs.Events.Retained
import ReactiveView.Proofs.Events.Journey
import ReactiveView.Proofs.Events.Since
import ReactiveView.Proofs.Events.Spared
import ReactiveView.Proofs.Events.Readings
import ReactiveView.Proofs.Events.Renewed
import ReactiveView.Proofs.Text.ByteOrder
import ReactiveView.Proofs.Events.Keys
import ReactiveView.Proofs.Events.Target
import ReactiveView.Proofs.Events.Heard
