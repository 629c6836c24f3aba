import Conformance.Proofs.Path.Ordinary

namespace Conformance.Path

variable {location home behind : List String} {segments front : List String} {depth : Nat}

def along (location : List String) : List String → List String
  | [] => location
  | "." :: segments => along location segments
  | ".." :: segments => along location.dropLast segments
  | segment :: segments => along (location ++ [segment]) segments

/-- From so many folders deep, the segments never lead above the first of them. -/
def StaysInside : Nat → List String → Prop
  | _, [] => True
  | depth, "." :: segments => StaysInside depth segments
  | 0, ".." :: _ => False
  | depth + 1, ".." :: segments => StaysInside depth segments
  | depth, _ :: segments => StaysInside (depth + 1) segments

theorem along_append (location front segments : List String) :
    along location (front ++ segments) = along (along location front) segments := by
  fun_induction along location front with
  | case1 => rfl
  | case2 location front ih => rw [List.cons_append, along, ih]
  | case3 location front ih => rw [List.cons_append, along, ih]
  | case4 location segment front hdot hdots ih =>
      rw [List.cons_append, along, ih]
      · exact hdot
      · exact hdots

theorem along_dot (location : List String) : along location ["."] = location := by
  rw [along, along]

theorem along_cons {name : String} (hname : Ordinary name) (location segments : List String) :
    along location (name :: segments) = along (location ++ [name]) segments := by
  rw [along]
  · exact hname.ne_dot
  · exact hname.ne_dots

theorem staysInside_cons {name : String} (hname : Ordinary name) :
    StaysInside depth (name :: segments) ↔ StaysInside (depth + 1) segments := by
  rw [StaysInside]
  · exact hname.ne_dot
  · exact fun _ => hname.ne_dots
  · exact fun _ _ => hname.ne_dots

theorem staysInside_of_ordinary (hsegments : ∀ segment ∈ segments, Ordinary segment)
    (depth : Nat) : StaysInside depth segments := by
  induction segments generalizing depth with
  | nil => trivial
  | cons segment segments ih =>
      rw [List.forall_mem_cons] at hsegments
      exact (staysInside_cons hsegments.1).mpr (ih hsegments.2 _)

theorem StaysInside.of_append (h : StaysInside depth (front ++ segments)) :
    StaysInside depth front := by
  fun_induction StaysInside depth front with
  | case1 => trivial
  | case2 depth front ih => exact ih h
  | case3 => exact h
  | case4 depth front ih => exact ih h
  | case5 depth segment front hdot hdots hdots' ih =>
      rw [List.cons_append, StaysInside] at h
      · exact ih h
      · exact hdot
      · exact hdots
      · exact hdots'

theorem StaysInside.of_prefix (h : StaysInside depth segments) (hfront : front <+: segments) :
    StaysInside depth front := by
  obtain ⟨rest, rfl⟩ := hfront
  exact h.of_append

/-- Segments that stay inside lead to a place below the folder they start from. -/
theorem prefix_along (hbehind : behind.length = depth) (h : StaysInside depth segments) :
    home <+: along (home ++ behind) segments := by
  fun_induction StaysInside depth segments generalizing behind with
  | case1 => exact List.prefix_append home behind
  | case2 depth segments ih =>
      rw [along]
      exact ih hbehind h
  | case3 => exact h.elim
  | case4 depth segments ih =>
      have hne : behind ≠ [] := by
        rintro rfl
        simp at hbehind
      rw [along, List.dropLast_append_of_ne_nil hne]
      exact ih (by rw [List.length_dropLast, hbehind]; rfl) h
  | case5 depth segment segments hdot hdots hdots' ih =>
      rw [along, List.append_assoc]
      · exact ih (by simp [hbehind]) h
      · exact hdot
      · rintro rfl
        cases depth with
        | zero => exact hdots rfl rfl
        | succ depth => exact hdots' depth rfl rfl

end Conformance.Path
