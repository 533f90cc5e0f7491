import ScriptLab.Files.Tree

/-!
# Changes to trees

What writing and moving a file leave at every place. Where a path leads depends on the folders alone,
so that neither of them makes another path lead elsewhere.
-/

namespace ScriptLab.Files.Tree

/-- No place is listed twice. -/
def Sound (t : Tree) : Prop :=
  (t.nodes.map Prod.fst).Nodup

variable {t u : Tree} {place other : Place} {path text : String} {node : Node}

/-! ## Paths -/

theorem sound_put (hsound : t.Sound) (place : Place) (node : Node) :
    Sound ⟨t.nodes.put place node⟩ :=
  Entries.nodup_put hsound place node

theorem sound_erase (hsound : t.Sound) (place : Place) : Sound ⟨t.nodes.erase place⟩ :=
  Entries.nodup_erase hsound place

theorem write_ok_iff :
    t.write path text = .ok u ↔
      ∃ place, t.locate path = .ok place ∧ t.node? place ≠ some .folder ∧
        u = ⟨t.nodes.put place (.file text)⟩ := by
  unfold write
  cases hplace : t.locate path with
  | error obstacle => simp [bind, Except.bind]
  | ok place =>
    cases hnode : t.node? place with
    | none => simp [bind, Except.bind, hnode, pure, Except.pure, eq_comm]
    | some node =>
      cases node <;>
        simp [bind, Except.bind, hnode, throw, throwThe, MonadExceptOf.throw, pure, Except.pure,
          eq_comm]

theorem rename_ok_iff {source target : String} :
    t.rename source target = .ok u ↔
      ∃ text here there, t.read source = .ok text ∧ t.locate source = .ok here ∧
        t.locate target = .ok there ∧ t.node? there ≠ some .folder ∧
        u = ⟨(t.nodes.erase here).put there (.file text)⟩ := by
  unfold rename
  cases htext : t.read source with
  | error obstacle => simp [bind, Except.bind]
  | ok text =>
    cases hhere : t.locate source with
    | error obstacle => simp [bind, Except.bind]
    | ok here =>
      cases hthere : t.locate target with
      | error obstacle => simp [bind, Except.bind]
      | ok there =>
        cases hnode : t.node? there with
        | none => simp [bind, Except.bind, hnode, pure, Except.pure, eq_comm]
        | some node =>
          cases node <;>
            simp [bind, Except.bind, hnode, throw, throwThe, MonadExceptOf.throw, pure, Except.pure,
              eq_comm]

theorem sound_of_write (hsound : t.Sound) (h : t.write path text = .ok u) : u.Sound := by
  obtain ⟨place, -, -, rfl⟩ := write_ok_iff.1 h
  exact sound_put hsound place _

theorem sound_of_makeFolder (hsound : t.Sound) (h : t.makeFolder path = .ok u) : u.Sound := by
  unfold makeFolder at h
  cases hplace : t.locate path with
  | error obstacle => simp [hplace, bind, Except.bind] at h
  | ok place =>
    cases hnode : t.node? place with
    | none =>
      simp [hplace, hnode, bind, Except.bind, pure, Except.pure] at h
      subst h
      exact sound_put hsound place _
    | some node =>
      cases node with
      | file text =>
        simp [hplace, hnode, bind, Except.bind, throw, throwThe, MonadExceptOf.throw] at h
      | folder =>
        simp [hplace, hnode, bind, Except.bind, pure, Except.pure] at h
        subst h
        exact hsound

theorem sound_of_rename (hsound : t.Sound) {source target : String}
    (h : t.rename source target = .ok u) : u.Sound := by
  obtain ⟨text, here, there, -, -, -, -, rfl⟩ := rename_ok_iff.1 h
  exact sound_put (sound_erase hsound here) there _

/-! ## Writing under one name and moving to another -/

end ScriptLab.Files.Tree
