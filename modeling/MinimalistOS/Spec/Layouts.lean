import MinimalistOS.Kernel.KeyboardIntl
import MinimalistOS.Spec.CharTables

/-!
# The layouts of `keyboard_intl.c`

The two that have no table for AltGr, and the characters a keyboard is expected to have.
-/

namespace MinimalistOS

open Infra

namespace CharTables

def usLayout : CharTables := ⟨usQwerty, usQwertyShift⟩

def frenchLayout : CharTables := ⟨frAzerty, frAzertyShift⟩

end CharTables

/-- ASCII from the space to the tilde, and what the backspace, tabulator and enter keys stand for. -/
def AsciiKey (c : Byte) : Prop :=
  0x08 ≤ c.toNat ∧ c.toNat ≤ 0x0A ∨ 0x20 ≤ c.toNat ∧ c.toNat ≤ 0x7E

instance (c : Byte) : Decidable (AsciiKey c) := inferInstanceAs (Decidable (_ ∨ _))

end MinimalistOS
