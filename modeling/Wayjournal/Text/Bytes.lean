import Mathlib.Data.List.Lex
import Mathlib.Order.Defs.LinearOrder

namespace Wayjournal.Text

instance instLinearOrderByte : LinearOrder UInt8 where
  le_refl a := UInt8.le_refl a
  le_trans _ _ _ hab hbc := UInt8.le_trans hab hbc
  le_antisymm _ _ hab hba := UInt8.le_antisymm hab hba
  le_total a b := UInt8.le_total a b
  lt_iff_le_not_ge a b := by
    rw [UInt8.not_le]
    exact ⟨fun h => ⟨UInt8.le_of_lt h, h⟩, fun h => h.2⟩
  toDecidableLE := inferInstance

end Wayjournal.Text
