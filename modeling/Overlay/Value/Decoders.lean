import Overlay.Value.Decode

/-!
# Collections of decoders

Decoders by the names of their types. Registering a decoder again replaces it; a
decoder that has been found earlier stays what it was.
-/

namespace Overlay

structure Decoders (V : Type) where
  entries : List (String × Decoder V) := []

namespace Decoders

variable {V : Type}

def find? (decoders : Decoders V) (typeName : String) : Option (Decoder V) :=
  decoders.entries.lookup typeName

def contains (decoders : Decoders V) (typeName : String) : Bool :=
  (decoders.find? typeName).isSome

def register (decoders : Decoders V) (typeName : String) (decoder : Decoder V) : Decoders V where
  entries := (typeName, decoder) :: decoders.entries.filter (·.1 ≠ typeName)

/-- Decode with the decoder of a type, when there is one. -/
def decode? (decoders : Decoders V) (typeName raw : String) : Option (Except DecodeError V) :=
  (decoders.find? typeName).map fun decoder => decoder raw

theorem find?_register (decoders : Decoders V) (typeName other : String) (decoder : Decoder V) :
    (decoders.register typeName decoder).find? other =
      if other = typeName then some decoder else decoders.find? other := by
  unfold find? register
  dsimp only
  induction decoders.entries with
  | nil => grind
  | cons entry rest ih =>
    obtain ⟨name, known⟩ := entry
    simp only [List.filter_cons]
    split <;> grind

end Decoders

end Overlay
