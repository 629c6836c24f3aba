import Conformance.Proofs.Host.Change
import Mathlib.Data.List.DropRight

namespace Conformance.Host

open Conformance.Path (Ordinary ofNames)

/-! Names behind a folder of the host, the last one a link or not, and the folder in
front of them. -/

variable {host : Host} {folder name : String} {path front rest : List String}

@[simp] theorem parts_empty : parts "" = [] := rfl

theorem parts_append_slash_empty (text : String) : parts (text ++ "/") = parts text := by
  have h := parts_append_slash text ""
  rwa [String.append_empty, parts_empty, List.append_nil] at h

section

variable (hpath : ∀ name ∈ path, Ordinary name)

include hpath

theorem join_empty : join "" (ofNames path) = ofNames path := by
  rw [join, isAbsolute_ofNames hpath]
  simp

theorem endsWith_slash_ofNames : Text.endsWith "/" (ofNames path) = false := by
  rw [Bool.eq_false_iff]
  intro hends
  obtain ⟨text, htext⟩ := endsWith_slash_iff.mp hends
  exact Path.ofNames_ne_append_slash hpath text.toList (by simp [htext])

theorem names_behind (folder : String) (hne : path ≠ []) :
    names (join folder (ofNames path)) = parts folder ++ path := by
  by_cases hempty : folder = ""
  · subst hempty
    rw [join_empty hpath, names_eq, endsWith_slash_ofNames hpath, parts_ofNames hpath]
    simp
  · exact names_join hpath hempty hne

theorem origin_behind (host : Host) (folder : String) :
    host.origin (join folder (ofNames path)) = host.origin folder := by
  have habsolute : isAbsolute (join folder (ofNames path)) = isAbsolute folder := by
    by_cases hempty : folder = ""
    · subst hempty
      rw [join_empty hpath, isAbsolute_ofNames hpath]
      rfl
    · exact isAbsolute_join hpath hempty
  rw [origin, origin, habsolute]

theorem join_ne_empty (folder : String) (hne : path ≠ []) : join folder (ofNames path) ≠ "" := by
  by_cases hempty : folder = ""
  · subst hempty
    rwa [join_empty hpath, Ne, Path.ofNames_eq_empty_iff hpath]
  · rw [join_eq hpath hempty]
    simp [lead_ne_empty hempty]

end

theorem isAbsolute_iff {text : String} : isAbsolute text = true ↔ text.toList.head? = some '/' := by
  rw [isAbsolute, Text.startsWith_iff, List.head?_eq_some_iff]
  exact exists_congr fun _ => eq_comm

theorem isAbsolute_of_no_slash {text : String} (hslash : '/' ∉ text.toList) :
    isAbsolute text = false := by
  rw [Bool.eq_false_iff, Ne, isAbsolute_iff]
  exact fun hhead => hslash (List.mem_of_head? hhead)

theorem exists_join_eq (folder : String) :
    ∃ before, (folder = "" ∧ before = "" ∨ folder ≠ "" ∧ before = lead folder) ∧
      ∀ name, isAbsolute name = false → join folder name = before ++ name := by
  by_cases hempty : folder = ""
  · subst hempty
    refine ⟨"", .inl ⟨rfl, rfl⟩, fun name hname => ?_⟩
    rw [join, hname, if_neg (by decide)]
    rfl
  · refine ⟨lead folder, .inr ⟨hempty, rfl⟩, fun name hname => ?_⟩
    rw [join, hname, if_neg (by decide), lead]
    by_cases hends : Text.endsWith "/" folder = true
    · simp [hends]
    · simp [hends, hempty]

theorem join_eq_append (folder : String) (hname : isAbsolute name = false) :
    ∃ before, join folder name = before ++ name ∧
      (folder = "" ∧ before = "" ∨ folder ≠ "" ∧ before = lead folder) := by
  obtain ⟨before, hlead, hjoin⟩ := exists_join_eq folder
  exact ⟨before, hjoin name hname, hlead⟩

theorem join_append_text (folder : String) {more : String} (hname : isAbsolute name = false)
    (hmore : isAbsolute (name ++ more) = false) :
    join folder (name ++ more) = join folder name ++ more := by
  obtain ⟨before, -, hjoin⟩ := exists_join_eq folder
  rw [hjoin _ hmore, hjoin _ hname, String.append_assoc]

theorem join_append (folder : String) (hfront : ∀ name ∈ front, Ordinary name)
    (hrest : ∀ name ∈ rest, Ordinary name) (hfrontNe : front ≠ []) (hrestNe : rest ≠ []) :
    join folder (ofNames (front ++ rest)) = join folder (ofNames front) ++ "/" ++ ofNames rest := by
  have hall := List.forall_mem_append.mpr ⟨hfront, hrest⟩
  by_cases hempty : folder = ""
  · subst hempty
    rw [join_empty hall, join_empty hfront, Path.ofNames_append hfrontNe hrestNe]
  · rw [join_eq hall hempty, join_eq hfront hempty, Path.ofNames_append hfrontNe hrestNe]
    simp only [String.append_assoc]

theorem join_join (folder : String) (hfront : ∀ name ∈ front, Ordinary name)
    (hrest : ∀ name ∈ rest, Ordinary name) (hfrontNe : front ≠ []) (hrestNe : rest ≠ []) :
    join (join folder (ofNames front)) (ofNames rest) = join folder (ofNames (front ++ rest)) := by
  have hends : Text.endsWith "/" (join folder (ofNames front)) = false := by
    rw [Bool.eq_false_iff]
    intro hends
    obtain ⟨text, htext⟩ := endsWith_slash_iff.mp hends
    obtain ⟨before, hbefore, -⟩ := join_eq_append folder (isAbsolute_ofNames hfront)
    have hlast := Path.getLast?_append_ofNames before hfront hfrontNe
    rw [← hbefore, htext] at hlast
    have hslash : (ofNames front).toList.getLast? = some '/' := by
      rw [← hlast]
      simp
    obtain ⟨more, hmore⟩ := List.getLast?_eq_some_iff.mp hslash
    exact Path.ofNames_ne_append_slash hfront more hmore
  rw [join_eq hrest (join_ne_empty hfront folder hfrontNe), lead, hends,
    join_append folder hfront hrest hfrontNe hrestNe]
  rfl

theorem mem_join {c : Char} (folder : String) (h : c ∈ name.toList) :
    c ∈ (join folder name).toList := by
  unfold join
  split
  · exact h
  · split
    · simp [h]
    · simp [h]

theorem mem_join_folder {c : Char} (hname : isAbsolute name = false) (h : c ∈ folder.toList) :
    c ∈ (join folder name).toList := by
  unfold join
  rw [hname, if_neg (by decide)]
  split <;> simp [h]

theorem utf8ByteSize_join_mono (folder : String) {shorter : String}
    (hname : isAbsolute name = false) (hshorter : isAbsolute shorter = false)
    (hsize : shorter.utf8ByteSize ≤ name.utf8ByteSize) :
    (join folder shorter).utf8ByteSize ≤ (join folder name).utf8ByteSize := by
  unfold join
  simp only [hname, hshorter, Bool.false_eq_true, if_false]
  split
  · simp only [String.utf8ByteSize_append]
    omega
  · simp only [String.utf8ByteSize_append]
    omega

theorem parts_rdropWhile (text : List Char) :
    parts (.ofList (text.rdropWhile (· == '/'))) = parts (.ofList text) := by
  induction text using List.reverseRecOn with
  | nil => rfl
  | append_singleton text c ih =>
      by_cases hslash : c = '/'
      · subst hslash
        have htext : String.ofList (text ++ ['/']) = String.ofList text ++ "/" :=
          String.toList_injective (by simp)
        rw [List.rdropWhile_concat_pos _ _ _ (by simp), ih, htext, parts_append_slash_empty]
      · rw [List.rdropWhile_concat_neg _ _ _ (by simpa using hslash)]

theorem parentPath?_eq (text : String) : parentPath? text =
    if (text.toList.rdropWhile (· == '/')).isEmpty then none
    else
      let front := (text.toList.rdropWhile (· == '/')).rdropWhile (· != '/')
      some (if (front.rdropWhile (· == '/')).isEmpty && !front.isEmpty then "/"
        else .ofList (front.rdropWhile (· == '/'))) := rfl

theorem parentPath?_append {text : String} {before : List Char}
    (htext : text.toList = before ++ name.toList) (hname : name ≠ "") (hslash : '/' ∉ name.toList)
    (hbefore : before = [] ∨ before.getLast? = some '/') :
    parentPath? text = some (if before.rdropWhile (· == '/') = [] ∧ before ≠ [] then "/"
      else .ofList (before.rdropWhile (· == '/'))) := by
  have hlast : text.toList.getLast? ≠ some '/' := by
    rw [htext, List.getLast?_append_of_ne_nil _ (by simpa using hname)]
    exact fun h => hslash (List.mem_of_getLast? h)
  have hfront : text.toList.rdropWhile (· != '/') = before := by
    rw [htext, List.rdropWhile, List.reverse_append, List.dropWhile_append_of_pos]
    · rcases hbefore with rfl | hends
      · rfl
      · obtain ⟨more, rfl⟩ := List.getLast?_eq_some_iff.mp hends
        simp
    · intro c hc
      rw [bne_iff_ne]
      rintro rfl
      exact hslash (List.mem_reverse.mp hc)
  have hne : text.toList ≠ [] := by simp [htext, hname]
  rw [parentPath?_eq, Path.rdropWhile_eq_self hlast, hfront, if_neg (by simpa using hne)]
  simp [List.isEmpty_iff]

theorem parentPath?_join_append (folder : String) (hfront : ∀ name ∈ front, Ordinary name)
    (hname : Ordinary name) (hne : front ≠ []) :
    parentPath? (join folder (ofNames (front ++ [name]))) = some (join folder (ofNames front)) := by
  have hlast : (join folder (ofNames front)).toList.getLast? ≠ some '/' := by
    obtain ⟨before, hbefore, -⟩ := join_eq_append folder (isAbsolute_ofNames hfront)
    rw [hbefore, Path.getLast?_append_ofNames before hfront hne]
    intro hslash
    obtain ⟨more, hmore⟩ := List.getLast?_eq_some_iff.mp hslash
    exact Path.ofNames_ne_append_slash hfront more hmore
  have hnonempty := join_ne_empty hfront folder hne
  have hstripped : ((join folder (ofNames front)).toList ++ ['/']).rdropWhile (· == '/') =
      (join folder (ofNames front)).toList := by
    rw [List.rdropWhile_concat_pos _ _ _ (by simp), Path.rdropWhile_eq_self hlast]
  have hlastName : ∀ other ∈ [name], Ordinary other := by simpa using hname
  have happend := join_append folder hfront hlastName hne (by simp)
  rw [Path.ofNames_singleton] at happend
  have htext : (join folder (ofNames (front ++ [name]))).toList =
      ((join folder (ofNames front)).toList ++ ['/']) ++ name.toList := by
    rw [happend]
    simp
  rw [parentPath?_append htext hname.ne_empty hname.no_slash (.inr (by simp)), hstripped]
  simp [hnonempty]

theorem parentPath?_join (folder : String) (hne : name ≠ "") (hslash : '/' ∉ name.toList) :
    ∃ parent, parentPath? (join folder name) = some parent ∧ names parent = parts folder ∧
      isAbsolute parent = isAbsolute folder := by
  obtain ⟨before, hbefore, hlead⟩ := join_eq_append folder (isAbsolute_of_no_slash hslash)
  have hends : before.toList = [] ∨ before.toList.getLast? = some '/' := by
    rcases hlead with ⟨-, rfl⟩ | ⟨-, rfl⟩
    · exact .inl rfl
    · obtain ⟨front, -, hfront⟩ := lead_eq folder
      exact .inr (by simp [hfront])
  have hparts : parts before = parts folder := by
    rcases hlead with ⟨rfl, rfl⟩ | ⟨-, rfl⟩
    · rfl
    · rw [lead]
      split
      · rfl
      · exact parts_append_slash_empty folder
  have habsolute : isAbsolute before = isAbsolute folder := by
    rcases hlead with ⟨rfl, rfl⟩ | ⟨hne, rfl⟩
    · rfl
    · have hne' : folder.toList ≠ [] := by simpa using hne
      rw [Bool.eq_iff_iff, isAbsolute_iff, isAbsolute_iff, lead]
      split
      · rfl
      · simp [List.head?_append_of_ne_nil _ hne']
  have hstripped := parts_rdropWhile before.toList
  rw [String.ofList_toList, hparts] at hstripped
  refine ⟨_, parentPath?_append (by simp [hbefore]) hne hslash hends, ?_⟩
  split
  · rename_i hall
    rw [hall.1] at hstripped
    refine ⟨hstripped, ?_⟩
    obtain ⟨c, rest, htext⟩ := List.exists_cons_of_ne_nil hall.2
    have hc := List.rdropWhile_eq_nil_iff.mp hall.1 c (by simp [htext])
    rw [← habsolute, Bool.eq_iff_iff, isAbsolute_iff, isAbsolute_iff, htext]
    simpa using hc.symm
  · rename_i hsome
    have hslash : Text.endsWith "/" (.ofList (before.toList.rdropWhile (· == '/'))) = false := by
      rw [Bool.eq_false_iff]
      intro hends
      obtain ⟨front, hfront⟩ := endsWith_slash_iff.mp hends
      have hlist := congrArg String.toList hfront
      rw [String.toList_ofList, String.toList_append] at hlist
      have hne : before.toList.rdropWhile (· == '/') ≠ [] := by simp [hlist]
      refine List.rdropWhile_last_not (· == '/') before.toList hne ?_
      simp [hlist]
    refine ⟨by rw [names_eq, hslash, hstripped]; rfl, ?_⟩
    by_cases hempty : before.toList = []
    · rw [← habsolute, hempty, ← String.ofList_toList (s := before), hempty]
      rfl
    · have hne : before.toList.rdropWhile (· == '/') ≠ [] := fun hnil => hsome ⟨hnil, hempty⟩
      obtain ⟨c, rest, htext⟩ := List.exists_cons_of_ne_nil hne
      obtain ⟨more, hmore⟩ := List.rdropWhile_prefix (· == '/') (l := before.toList)
      have hhead : before.toList.head? = some c := by
        rw [← hmore, htext]
        rfl
      rw [← habsolute, Bool.eq_iff_iff, isAbsolute_iff, isAbsolute_iff, String.toList_ofList,
        hhead, htext, List.head?_cons]

theorem parentPath?_join_congr {other : String} (folder : String) (hname : name ≠ "")
    (hslash : '/' ∉ name.toList) (hother : other ≠ "") (hslash' : '/' ∉ other.toList) :
    parentPath? (join folder other) = parentPath? (join folder name) := by
  obtain ⟨before, hlead, hjoin⟩ := exists_join_eq folder
  have hends : before.toList = [] ∨ before.toList.getLast? = some '/' := by
    rcases hlead with ⟨-, rfl⟩ | ⟨-, rfl⟩
    · exact .inl rfl
    · obtain ⟨front, -, hfront⟩ := lead_eq folder
      exact .inr (by simp [hfront])
  have htext {text : String} (htext : '/' ∉ text.toList) :
      (join folder text).toList = before.toList ++ text.toList := by
    rw [hjoin text (isAbsolute_of_no_slash htext), String.toList_append]
  rw [parentPath?_append (htext hslash) hname hslash hends,
    parentPath?_append (htext hslash') hother hslash' hends]

theorem IsBase.resolve_join_empty {base : String} {location : Location}
    (hbase : host.IsBase base location)
    (hlimit : base.utf8ByteSize + 1 < pathLimit) :
    host.resolve (join base "") = .ok (location, .folder) := by
  obtain ⟨hfind, hget⟩ := resolve_eq_ok_iff.mp hbase.resolved
  by_cases hends : Text.endsWith "/" base = true
  · have hsame : join base "" = base := by
      rw [join, if_neg (by decide), hends, Bool.or_true, if_pos rfl, String.append_empty]
    rw [hsame]
    exact hbase.resolved
  · rw [Bool.not_eq_true] at hends
    obtain ⟨hnul, hempty, -, hleads⟩ := find_eq_ok_iff.mp hfind
    have hjoin : join base "" = base ++ "/" := by
      have hnotEmpty : base.isEmpty = false := by simpa using hempty
      rw [join, if_neg (by decide), hends, hnotEmpty, Bool.or_false, if_neg (by decide),
        String.append_empty]
    rw [names_eq, hends, Bool.false_and, if_neg (by decide)] at hleads
    have hslash : Text.endsWith "/" (base ++ "/") = true := endsWith_slash_iff.mpr ⟨base, rfl⟩
    have horigin : host.origin (base ++ "/") = host.origin base := by
      obtain ⟨c, rest, htext⟩ := List.exists_cons_of_ne_nil (mt String.toList_eq_nil_iff.mp hempty)
      have habsolute : isAbsolute (base ++ "/") = isAbsolute base := by
        rw [Bool.eq_iff_iff, isAbsolute_iff, isAbsolute_iff, String.toList_append, htext]
        rfl
      rw [origin, origin, habsolute]
    have hfound : host.find (base ++ "/") = .ok location := by
      refine find_eq_ok_iff.mpr ⟨by simpa using hnul, by simp, ?_, ?_⟩
      · rw [String.utf8ByteSize_append]
        exact hlimit
      · rw [horigin, names_eq, hslash, parts_append_slash_empty, Bool.true_and]
        split
        · obtain ⟨fewer, hfollow⟩ := hleads.follow_append hbase.isFolderAt
          rw [leads_iff_follow, hfollow, follow_dot hbase.isFolderAt, follow]
        · exact hleads
    rw [hjoin]
    exact resolve_eq_ok_iff.mpr ⟨hfound, hget⟩

end Conformance.Host
