import DataSchema.Proofs.Choices
import DataSchema.Proofs.Store.Alternatives
import DataSchema.Proofs.Store.Context

/-!
The choice that is offered for an object, which may hold itself. Main statement: what is offered is
decided by the class of a value and, for mappings, by a few of its entries; and there is an answer
however deep the value is.
-/

namespace DataSchema

namespace Store

variable {store : Store}

/-- An object matches shapes as any value does that it shows as deep as the engine goes. -/
theorem matchShape_eq (hproper : store.Proper) (settings : Settings) {v : Ref} {w : Value}
    (hv : store.Shows (settings.depth.limit.bound + 2) v w) (shapes : List Descriptor) :
    store.matchShape settings shapes v = DataSchema.matchAlternative settings w shapes := by
  have hreads : List.Forall₂ store.Reads (shapes.map .shape) shapes := by
    rw [List.forall₂_map_left_iff, List.forall₂_same]
    exact fun _ _ => rfl
  rw [matchAlternative_reads hproper settings hv hreads]
  unfold matchShape
  split
  · next htree => exact matchAlternative_reads hproper settings (shows_tree hproper _ htree) hreads
  · rfl

end Store

end DataSchema
