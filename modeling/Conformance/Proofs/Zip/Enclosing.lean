import Conformance.Proofs.Path.Along
import Conformance.Zip.Archive

namespace Conformance.Zip

open Conformance.Path (Ordinary StaysInside)

/-! What may be relied on of the places that entries' names lead to: they are relative, and no
part of a name leads above the folder that the name is joined to. Whether a name keeps a ".."
is up to the reader. -/

variable {name : String} {entry : Entry} {archive : Archive} {bytes : ByteArray}

/-- The segments of the name are relative, and lead nowhere above the folder they are joined
to. -/
structure Entry.IsEnclosed (entry : Entry) : Prop where
  relative : ∀ segments, entry.enclosed = some segments →
    ∀ segment ∈ segments, segment = ".." ∨ Ordinary segment
  inside : ∀ segments, entry.enclosed = some segments → StaysInside 0 segments

/-- Of the name no ".." is left. -/
def Entry.IsResolved (entry : Entry) : Prop :=
  ∀ segments, entry.enclosed = some segments → ∀ segment ∈ segments, Ordinary segment

/-- Where a reader says that a name leads, it is relative and leads nowhere above its start. -/
def Reader.Encloses (reader : Reader) : Prop :=
  ∀ bytes archive, reader bytes = .ok archive → ∀ entry ∈ archive, entry.IsEnclosed

/-- Such a reader keeps no ".."; the one that reads an archive's bytes is of this kind. -/
def Reader.Resolves (reader : Reader) : Prop :=
  ∀ bytes archive, reader bytes = .ok archive → ∀ entry ∈ archive, entry.IsResolved

theorem Entry.IsResolved.isEnclosed (h : entry.IsResolved) : entry.IsEnclosed where
  relative segments hsegments segment hsegment := .inr (h segments hsegments segment hsegment)
  inside segments hsegments := Path.staysInside_of_ordinary (h segments hsegments) 0

theorem Reader.Resolves.encloses {reader : Reader} (h : reader.Resolves) : reader.Encloses :=
  fun bytes archive harchive entry hentry => (h bytes archive harchive entry hentry).isEnclosed

theorem of_mem_splitOnP {separates : Char → Bool} {text part : List Char} {c : Char}
    (hpart : part ∈ text.splitOnP separates) (hc : c ∈ part) : c ∈ text ∧ separates c = false := by
  induction text generalizing part with
  | nil =>
      rw [List.splitOnP_nil, List.mem_singleton] at hpart
      simp [hpart] at hc
  | cons first text ih =>
      rw [List.splitOnP_cons_eq_if_modifyHead] at hpart
      split at hpart
      · rcases List.mem_cons.mp hpart with rfl | hpart
        · simp at hc
        · exact (ih hpart hc).imp_left (List.mem_cons_of_mem first)
      · rename_i hfirst
        obtain ⟨head, parts, hparts⟩ :=
          List.exists_cons_of_ne_nil (List.splitOnP_ne_nil separates text)
        rw [hparts, List.modifyHead_cons] at hpart
        rw [hparts] at ih
        rcases List.mem_cons.mp hpart with rfl | hpart
        · rcases List.mem_cons.mp hc with rfl | hc
          · exact ⟨List.mem_cons_self, by simpa using hfirst⟩
          · exact (ih List.mem_cons_self hc).imp_left (List.mem_cons_of_mem first)
        · exact (ih (List.mem_cons_of_mem _ hpart) hc).imp_left (List.mem_cons_of_mem first)

theorem forall_mem_of_follow {good : String → Prop} {reached ahead segments : List String}
    (hreached : ∀ segment ∈ reached, good segment)
    (hahead : ∀ segment ∈ ahead, segment ≠ "" → segment ≠ "." → segment ≠ ".." → good segment)
    (h : follow reached ahead = some segments) : ∀ segment ∈ segments, good segment := by
  fun_induction follow reached ahead with
  | case1 reached =>
      cases h
      simpa using hreached
  | case2 reached ahead ih =>
      exact ih hreached (fun segment hsegment => hahead segment (List.mem_cons_of_mem _ hsegment)) h
  | case3 reached ahead ih =>
      exact ih hreached (fun segment hsegment => hahead segment (List.mem_cons_of_mem _ hsegment)) h
  | case4 => cases h
  | case5 ahead last reached ih =>
      exact ih (fun segment hsegment => hreached segment (List.mem_cons_of_mem _ hsegment))
        (fun segment hsegment => hahead segment (List.mem_cons_of_mem _ hsegment)) h
  | case6 reached segment ahead hempty hdot hdots ih =>
      refine ih ?_ (fun segment hsegment => hahead segment (List.mem_cons_of_mem _ hsegment)) h
      exact List.forall_mem_cons.mpr
        ⟨hahead segment List.mem_cons_self hempty hdot hdots, hreached⟩

theorem ordinary_of_enclosed? {segments : List String} (h : enclosed? name = some segments) :
    ∀ segment ∈ segments, Ordinary segment := by
  unfold enclosed? at h
  dsimp only at h
  split at h
  · cases h
  · rename_i hsafe
    simp only [Bool.or_eq_true, not_or, List.contains_eq_mem, decide_eq_true_eq] at hsafe
    refine forall_mem_of_follow (by simp) ?_ h
    intro segment hsegment hempty hdot hdots
    obtain ⟨part, hpart, rfl⟩ := List.mem_map.mp hsegment
    refine ⟨hempty, hdot, hdots, ?_, ?_, ?_⟩ <;> intro hmem <;> rw [String.toList_ofList] at hmem
    · exact absurd (of_mem_splitOnP hpart hmem).2 (by decide)
    · exact absurd (of_mem_splitOnP hpart hmem).2 (by decide)
    · exact hsafe.1.1 (of_mem_splitOnP hpart hmem).1

theorem Entry.isResolved_of_eq (h : entry.enclosed = enclosed? entry.name) : entry.IsResolved :=
  fun _ hsegments => ordinary_of_enclosed? (h.symm.trans hsegments)

theorem Archive.mem_put {other : Entry} (h : other ∈ archive.put entry) :
    other = entry ∨ other ∈ archive := by
  induction archive with
  | nil => exact .inl (List.mem_singleton.mp h)
  | cons first rest ih =>
      rw [put] at h
      split at h
      · exact (List.mem_cons.mp h).imp_right (List.mem_cons_of_mem first)
      · rcases List.mem_cons.mp h with rfl | hrest
        · exact .inr List.mem_cons_self
        · exact (ih hrest).imp_right (List.mem_cons_of_mem first)

theorem Archive.mem_ofEntries {entries : List Entry} (h : entry ∈ ofEntries entries) :
    entry ∈ entries := by
  have hfold (archive : Archive) (more : List Entry)
      (h : entry ∈ more.foldl (fun archive entry => archive.put entry) archive) :
      entry ∈ archive ∨ entry ∈ more := by
    induction more generalizing archive with
    | nil => exact .inl h
    | cons first more ih =>
        rcases ih _ h with hput | hmore
        · rcases mem_put hput with rfl | hbefore
          · exact .inr List.mem_cons_self
          · exact .inl hbefore
        · exact .inr (List.mem_cons_of_mem first hmore)
  rw [ofEntries] at h
  split at h
  · exact h
  · exact (hfold [] entries h).resolve_left (by simp)

namespace Layout

theorem enclosed_of_entryAt {shift position next : Nat}
    (h : entryAt bytes shift position = .ok (entry, next)) :
    entry.enclosed = enclosed? entry.name := by
  unfold entryAt at h
  split at h
  · cases h
  · dsimp only at h
    split at h
    · cases h
    · cases h
      rfl

theorem enclosed_of_entriesFrom {shift count position : Nat} {before entries : List Entry}
    (hbefore : ∀ entry ∈ before, entry.enclosed = enclosed? entry.name)
    (h : entriesFrom bytes shift count position before = .ok entries) :
    ∀ entry ∈ entries, entry.enclosed = enclosed? entry.name := by
  induction count generalizing position before with
  | zero =>
      rw [entriesFrom] at h
      cases h
      exact hbefore
  | succ count ih =>
      rw [entriesFrom] at h
      cases hentry : entryAt bytes shift position with
      | error problem =>
          rw [hentry] at h
          cases h
      | ok found =>
          rw [hentry] at h
          exact ih (List.forall_mem_cons.mpr ⟨enclosed_of_entryAt hentry, hbefore⟩) h

theorem enclosed_of_archiveAt {found : DirectoryEnd} (h : archiveAt bytes found = .ok archive) :
    ∀ entry ∈ archive, entry.enclosed = enclosed? entry.name := by
  unfold archiveAt at h
  simp only [bind, Except.bind, throw, throwThe, MonadExceptOf.throw, pure, Except.pure] at h
  split at h
  · cases h
  · split at h
    · cases h
    · split at h
      · cases h
      · rename_i entries hentries
        cases h
        intro entry hentry
        exact enclosed_of_entriesFrom (by simp) hentries entry
          (List.mem_reverse.mp (Archive.mem_ofEntries hentry))

theorem enclosed_of_search {problem : Problem} {limit : Nat}
    (h : search bytes problem limit = .ok archive) :
    ∀ entry ∈ archive, entry.enclosed = enclosed? entry.name := by
  fun_induction search bytes problem limit with
  | case1 => cases h
  | case2 problem position hnone ih => exact ih h
  | case3 problem position found hfound other hother =>
      cases h
      exact enclosed_of_archiveAt hother
  | case4 problem position found hfound other hother ih => exact ih h

end Layout

theorem resolves_ofBytes : Reader.Resolves Archive.ofBytes :=
  fun _ _ harchive entry hentry =>
    Entry.isResolved_of_eq (Layout.enclosed_of_search harchive entry hentry)

end Conformance.Zip
