import Invisibool.Engine.Restore

/-!
# When restore returns

The search loop moves on by one byte and slices a value's length of bytes, wherever the prefix
occurs, so a character of several bytes in either place is a panic.
-/

namespace Invisibool
open Text

namespace Engine

variable {X : Crates} {e : Engine} {input : Str} {vaultKey : List UInt8}
  {registered : List RegisteredValue} {retired : List FpeRegistration}
  {sessionMacKey : List UInt8}

/-- Restore returns exactly when, at each occurrence of a prefix that leaves room for a value,
both the next byte and the end of the room are character boundaries. -/
theorem restore_returns_iff (hFf1 : X.Ff1Lawful)
    (hnew : Engine.new X vaultKey registered retired sessionMacKey = .ok (.ok e))
    (helig : ∀ r, .fpe r ∈ registered → r.Eligible) (input : Str) :
    (∃ res, restore X e input = .ok res) ↔
      ∀ r, .fpe r ∈ registered → ∀ i, OccursAt input r.pfx i →
        i + byteLen r.value ≤ byteLen input →
        IsCharBoundary input (i + 1) ∧ IsCharBoundary input (i + byteLen r.value) := by
  have hb := builtFrom_of_new hnew
  rw [restore_isOk hFf1]
  exact ⟨fun h r hr => h r (hb.mem_fpes.mpr hr) (helig r hr).pfx_lt,
    fun h r hr _ => h r (hb.mem_fpes.mp hr)⟩

theorem restore_returns_iff_reference :
    let r : FpeRegistration := ⟨[], "AAAA".toList, Vector.replicate 16 0, .base62, []⟩
    (∃ res, restore Crates.reference (reference [.fpe r] [] []) "xBBBB".toList = .ok res) ↔
      ∀ r', .fpe r' ∈ [RegisteredValue.fpe r] → ∀ i, OccursAt "xBBBB".toList r'.pfx i →
        i + byteLen r'.value ≤ byteLen "xBBBB".toList →
        IsCharBoundary "xBBBB".toList (i + 1) ∧
          IsCharBoundary "xBBBB".toList (i + byteLen r'.value) :=
  restore_returns_iff Crates.reference_ff1Lawful (new_reference [] _ _ _)
    (fun r' hr' => by
      obtain rfl := RegisteredValue.fpe.inj (List.mem_singleton.mp hr')
      decide +kernel) "xBBBB".toList

/-- A text of characters of two bytes, longer than the value, is one that restore panics on. -/
theorem restore_panics_on_two_byte_characters :
    (⟨[], "AAAA".toList, Vector.replicate 16 0, .base62, []⟩ : FpeRegistration).Eligible ∧
    restore Crates.reference
      (reference [.fpe ⟨[], "AAAA".toList, Vector.replicate 16 0, .base62, []⟩] [] [])
      "ééé".toList = .error .charBoundary := by
  exact ⟨by decide +kernel, by decide +kernel⟩

end Engine

end Invisibool
