import ScriptLab.Proofs.Value.Shifting
import ScriptLab.Value.Rendering

/-!
# Renderings and places

The renderings of a value do not depend on the places of what it holds, nor on how much else is in
the store. For the second, the bound on the recursion never matters: each container that is entered
is one that is not being written yet.
-/

namespace ScriptLab

/-! ## Moved stores -/

namespace Shift

variable (σ : Shift)

/-- A moved container. -/
def container : Container → Container
  | .arr id => .arr (σ.arrays id)
  | .obj id => .obj (σ.objects id)

theorem container_inj {c d : Container} : σ.container c = σ.container d ↔ c = d := by
  cases c <;> cases d <;> simp [container, Renaming.eq_iff]

theorem container_mem {c : Container} {around : List Container} :
    σ.container c ∈ around.map σ.container ↔ c ∈ around := by
  simp only [List.mem_map, container_inj, exists_eq_right]

end Shift

namespace Shifted

variable {σ : Shift} {s t : Store}

theorem callableText (h : Shifted σ s t) (id : Nat) :
    t.callableText (σ.callables id) = s.callableText id := by
  rw [Store.callableText, Store.callableText, h.callables.item]
  rcases s.callables[id]? with _ | (_ | _) <;> rfl

theorem reprWithin (h : Shifted σ s t) (n : Nat) (around : List Container) (v : Value) :
    t.reprWithin n (around.map σ.container) (σ.value v) = s.reprWithin n around v := by
  induction n generalizing around v with
  | zero =>
    cases v with
    | fn id => exact h.callableText id
    | _ => rfl
  | succ n ih =>
    cases v with
    | fn id => exact h.callableText id
    | arr id =>
      have hitem : ∀ v, t.reprWithin n (.arr (σ.arrays id) :: around.map σ.container)
          (σ.value v) = s.reprWithin n (.arr id :: around) v := ih (.arr id :: around)
      have hmem : Container.arr (σ.arrays id) ∈ around.map σ.container ↔ _ :=
        σ.container_mem (c := .arr id)
      simp only [Shift.value_arr, Store.reprWithin, hmem, h.items, Array.toList_map, List.map_map,
        Function.comp_def, hitem]
    | obj id =>
      have hitem : ∀ v, t.reprWithin n (.obj (σ.objects id) :: around.map σ.container)
          (σ.value v) = s.reprWithin n (.obj id :: around) v := ih (.obj id :: around)
      have hmem : Container.obj (σ.objects id) ∈ around.map σ.container ↔ _ :=
        σ.container_mem (c := .obj id)
      have hentries := h.entries id
      simp only [Shift.value_obj, Store.reprWithin, hmem, hentries]
      cases s.entries id with
      | nil => rfl
      | cons entry rest =>
        simp only [Shift.entries, Entries.mapValues, List.map_cons, List.map_map,
          Function.comp_def, hitem]
    | _ => rfl

theorem jsonWithin (h : Shifted σ s t) (n : Nat) (around : List Container) (v : Value) :
    t.jsonWithin n (around.map σ.container) (σ.value v) = s.jsonWithin n around v := by
  induction n generalizing around v with
  | zero => cases v <;> rfl
  | succ n ih =>
    cases v with
    | arr id =>
      have hitem : ∀ v, t.jsonWithin n (.arr (σ.arrays id) :: around.map σ.container)
          (σ.value v) = s.jsonWithin n (.arr id :: around) v := ih (.arr id :: around)
      have hmem : Container.arr (σ.arrays id) ∈ around.map σ.container ↔ _ :=
        σ.container_mem (c := .arr id)
      simp only [Shift.value_arr, Store.jsonWithin, hmem, h.items, Array.toList_map, List.map_map,
        Function.comp_def, hitem]
    | obj id =>
      have hitem : ∀ v, t.jsonWithin n (.obj (σ.objects id) :: around.map σ.container)
          (σ.value v) = s.jsonWithin n (.obj id :: around) v := ih (.obj id :: around)
      have hmem : Container.obj (σ.objects id) ∈ around.map σ.container ↔ _ :=
        σ.container_mem (c := .obj id)
      simp only [Shift.value_obj, Store.jsonWithin, hmem, h.entries, Shift.entries,
        Entries.mapValues, List.map_map, Function.comp_def, hitem]
    | _ => rfl

end Shifted

/-! ## The bound on the recursion -/

namespace Store

variable (s : Store)

/-- The containers that exist. -/
def containers : List Container :=
  (List.range s.arrays.size).map .arr ++ (List.range s.objects.size).map .obj

theorem length_containers : s.containers.length = s.arrays.size + s.objects.size := by
  simp [containers]

/-- The number of containers that are not being written. -/
def unwritten (around : List Container) : Nat :=
  ((s.containers.filter (· ∉ around))).length

theorem unwritten_nil : s.unwritten [] < s.nestingBound := by
  have hle := List.length_filter_le (fun c => decide (c ∉ ([] : List Container))) s.containers
  rw [length_containers] at hle
  exact Nat.lt_succ_of_le hle

variable {s}

/-- One container fewer is left when one of them is entered. -/
theorem unwritten_cons {c : Container} {around : List Container} (hc : c ∈ s.containers)
    (haround : c ∉ around) : s.unwritten (c :: around) < s.unwritten around := by
  have hfilter : s.containers.filter (· ∉ c :: around) =
      (s.containers.filter (· ∉ around)).filter (· ≠ c) := by
    rw [List.filter_filter]
    refine List.filter_congr fun d _ => ?_
    simp
  rw [unwritten, hfilter, unwritten]
  refine List.length_filter_lt_length_iff_exists.2 ⟨c, ?_, by simp⟩
  exact List.mem_filter.2 ⟨hc, by simpa using haround⟩

theorem arr_mem_containers {id : Nat} {v : Value} (h : v ∈ s.items id) :
    .arr id ∈ s.containers := by
  have hid : id < s.arrays.size := by
    refine Nat.lt_of_not_le fun hge => ?_
    rw [items, Array.getD_eq_getD_getElem?, Array.getElem?_eq_none hge] at h
    exact Array.not_mem_empty v h
  exact List.mem_append_left _ (List.mem_map_of_mem (List.mem_range.2 hid))

theorem obj_mem_containers {id : Nat} {entry : String × Value} (h : entry ∈ s.entries id) :
    .obj id ∈ s.containers := by
  have hid : id < s.objects.size := by
    refine Nat.lt_of_not_le fun hge => ?_
    rw [entries, Array.getD_eq_getD_getElem?, Array.getElem?_eq_none hge] at h
    exact List.not_mem_nil h
  exact List.mem_append_right _ (List.mem_map_of_mem (List.mem_range.2 hid))

/-- Every bound beyond the number of containers that are not being written gives the same text. -/
theorem reprWithin_enough {m n : Nat} {around : List Container} (hm : s.unwritten around < m)
    (hn : s.unwritten around < n) (v : Value) :
    s.reprWithin m around v = s.reprWithin n around v := by
  induction m generalizing n around v with
  | zero => exact absurd hm (Nat.not_lt_zero _)
  | succ m ih =>
    obtain ⟨n, rfl⟩ : ∃ k, n = k + 1 := ⟨n - 1, by omega⟩
    cases v with
    | arr id =>
      rw [reprWithin, reprWithin]
      by_cases haround : Container.arr id ∈ around
      · rw [if_pos haround, if_pos haround]
      · rw [if_neg haround, if_neg haround]
        have hitems : (s.items id).toList.map (s.reprWithin m (.arr id :: around)) =
            (s.items id).toList.map (s.reprWithin n (.arr id :: around)) := by
          refine List.map_congr_left fun v hv => ?_
          have hless := unwritten_cons (arr_mem_containers (Array.mem_toList_iff.1 hv)) haround
          exact ih (by omega) (by omega) v
        simp only [hitems]
    | obj id =>
      rw [reprWithin, reprWithin]
      by_cases haround : Container.obj id ∈ around
      · rw [if_pos haround, if_pos haround]
      · rw [if_neg haround, if_neg haround]
        have hitems : (s.entries id).map (fun entry => entry.1 ++ ": " ++
              s.reprWithin m (.obj id :: around) entry.2) =
            (s.entries id).map (fun entry => entry.1 ++ ": " ++
              s.reprWithin n (.obj id :: around) entry.2) := by
          refine List.map_congr_left fun entry hentry => ?_
          have hless := unwritten_cons (obj_mem_containers hentry) haround
          exact congrArg _ (ih (by omega) (by omega) entry.2)
        cases hentries : s.entries id with
        | nil => rfl
        | cons entry rest =>
          rw [hentries] at hitems
          simp only [hitems]
    | _ => rw [reprWithin, reprWithin]

/-- Every bound beyond the number of containers that are not being written gives the same value. -/
theorem jsonWithin_enough {m n : Nat} {around : List Container} (hm : s.unwritten around < m)
    (hn : s.unwritten around < n) (v : Value) :
    s.jsonWithin m around v = s.jsonWithin n around v := by
  induction m generalizing n around v with
  | zero => exact absurd hm (Nat.not_lt_zero _)
  | succ m ih =>
    obtain ⟨n, rfl⟩ : ∃ k, n = k + 1 := ⟨n - 1, by omega⟩
    cases v with
    | arr id =>
      rw [jsonWithin, jsonWithin]
      by_cases haround : Container.arr id ∈ around
      · rw [if_pos haround, if_pos haround]
      · rw [if_neg haround, if_neg haround]
        refine congrArg Json.arr (List.map_congr_left fun v hv => ?_)
        have hless := unwritten_cons (arr_mem_containers (Array.mem_toList_iff.1 hv)) haround
        exact ih (by omega) (by omega) v
    | obj id =>
      rw [jsonWithin, jsonWithin]
      by_cases haround : Container.obj id ∈ around
      · rw [if_pos haround, if_pos haround]
      · rw [if_neg haround, if_neg haround]
        refine congrArg Json.obj (List.map_congr_left fun entry hentry => ?_)
        have hless := unwritten_cons (obj_mem_containers hentry) haround
        exact congrArg _ (ih (by omega) (by omega) entry.2)
    | _ => rw [jsonWithin, jsonWithin]

end Store

/-! ## Texts -/

namespace Shifted

variable {σ : Shift} {s t : Store}

theorem nestingBound_le (h : Shifted σ s t) : s.nestingBound ≤ t.nestingBound := by
  have harrays := h.arrays.size_le
  have hobjects := h.objects.size_le
  unfold Store.nestingBound
  omega

theorem repr (h : Shifted σ s t) (v : Value) : t.repr (σ.value v) = s.repr v := by
  have hbound := Nat.lt_of_lt_of_le s.unwritten_nil h.nestingBound_le
  exact (h.reprWithin _ [] v).trans (Store.reprWithin_enough hbound s.unwritten_nil v)

theorem json (h : Shifted σ s t) (v : Value) : t.json (σ.value v) = s.json v := by
  have hbound := Nat.lt_of_lt_of_le s.unwritten_nil h.nestingBound_le
  exact (h.jsonWithin _ [] v).trans (Store.jsonWithin_enough hbound s.unwritten_nil v)

theorem text (h : Shifted σ s t) (v : Value) : t.text (σ.value v) = s.text v := by
  cases v with
  | str text => rfl
  | _ => exact h.repr _

theorem output (h : Shifted σ s t) (v : Value) : t.output (σ.value v) = s.output v := by
  cases v with
  | str text => rfl
  | num x => rfl
  | _ => exact congrArg Json.pretty (h.json _)

end Shifted

end ScriptLab
