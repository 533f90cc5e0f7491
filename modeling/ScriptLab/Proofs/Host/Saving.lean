import ScriptLab.Host.ConfigFile
import ScriptLab.Proofs.Files.Tree

/-!
# What saving a configuration changes

Whatever the tree holds, and wherever the system fails, saving concerns two places: the one of the
configuration and the one of the temporary name beside it.
-/

namespace ScriptLab.Host.Config

open Files (Tree)

variable {breakdown : Option Breakdown} {config : Config} {path : String} {tree after : Tree}
  {result : Except ConfigFault Unit}

/-- Saving ends in one of three ways: nothing was made, the temporary file is left, or it was given
the name of the configuration. -/
theorem saveUnder_cases (h : saveUnder breakdown config path tree = (result, after)) :
    (result = .error (.notCreated (temporary path)) ∧ after = tree) ∨
    (∃ fault, result = .error fault ∧ fault ≠ .notCreated (temporary path) ∧
      tree.write (temporary path) (arrival breakdown config.text) = .ok after) ∨
    (result = .ok () ∧ ∃ written, tree.write (temporary path) config.text = .ok written ∧
      written.rename (temporary path) path = .ok after) := by
  unfold saveUnder at h
  split at h
  · cases h
    exact .inl ⟨rfl, rfl⟩
  · cases h
    exact .inl ⟨rfl, rfl⟩
  · next hwrite =>
    cases h
    exact .inr (.inl ⟨_, rfl, by simp, hwrite⟩)
  · next hwrite =>
    cases h
    exact .inr (.inl ⟨_, rfl, by simp, hwrite⟩)
  · next hwrite =>
    cases h
    exact .inr (.inl ⟨_, rfl, by simp, hwrite⟩)
  · next written hwrite =>
    split at h
    · cases h
      exact .inr (.inl ⟨_, rfl, by simp, hwrite⟩)
    · next hrename =>
      cases h
      exact .inr (.inr ⟨rfl, written, hwrite, hrename⟩)

/-- The trees that saving makes list no place twice. -/
theorem sound_of_saveUnder (hsound : tree.Sound)
    (h : saveUnder breakdown config path tree = (result, after)) : after.Sound := by
  rcases saveUnder_cases h with ⟨-, rfl⟩ | ⟨fault, -, -, hwrite⟩ | ⟨-, written, hwrite, hrename⟩
  · exact hsound
  · exact Tree.sound_of_write hsound hwrite
  · exact Tree.sound_of_rename (Tree.sound_of_write hsound hwrite) hrename

end ScriptLab.Host.Config
