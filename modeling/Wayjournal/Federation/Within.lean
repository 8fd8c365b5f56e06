import Wayjournal.Federation.CleanupLaws
import Wayjournal.Store.ResidueLaws

namespace Wayjournal

open Collections Crash Fs FileSystem Text

section

variable {d : Directory} {name : Name} {s t : Disk}

theorem within_of_onlyBelow (h : (onlyBelow d).rel s t) : (within d.area d.path).rel s t :=
  ⟨fun area harea => ext_get? fun k => h area k fun hbelow => harea hbelow.1,
    fun k hk => h d.area k fun hbelow => hk hbelow.2.1⟩

theorem within_child (h : (within d.area (d.path ++ [name])).rel s t) : (within d.area d.path).rel s t :=
  within_mono (List.prefix_append _ _) h

namespace Directory

theorem sets_of_rename {fs gs : FileSystem Name} {p : List Name} {old new : Name} (hne : old ≠ new)
    (h : fs.rename p old new = .ok gs) : ∃ e, fs.get? (p ++ [old]) = some e ∧ gs.get? (p ++ [new]) = some e ∧
      gs.get? (p ++ [old]) = none ∧ ∀ q, q ≠ p ++ [old] → q ≠ p ++ [new] → gs.get? q = fs.get? q := by
  have hpaths : p ++ [new] ≠ p ++ [old] := fun heq => hne (by simpa using heq.symm)
  unfold rename at h
  split at h
  · cases h
  · cases h
  · rename_i e he hold
    split at h
    · cases h
    · rename_i hdir
      have hplace : fs.Sets (p ++ [new]) (some e) _ := sets_place (isDir_of_get? hold) hdir
      have hremove := sets_of_unlink h
      refine ⟨e, hold, ?_, hremove.here, fun q hq hq' => ?_⟩
      · rw [hremove.elsewhere _ hpaths, hplace.here]
      · rw [hremove.elsewhere _ hq, hplace.elsewhere _ hq']

end Directory

end

end Wayjournal
