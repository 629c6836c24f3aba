import Conformance.Zip.Archive
import Mathlib

namespace Conformance.Zip

variable {bytes : ByteArray} {found : Layout.DirectoryEnd} {entries : List Entry}

deriving instance DecidableEq for Entry
deriving instance DecidableEq for Layout.DirectoryEnd

theorem Archive.ofEntries_eq_self (hdistinct : (entries.map (·.name)).Nodup) :
    ofEntries entries = entries := by
  rw [ofEntries, if_pos]
  rw [Std.HashSet.size_ofList, List.length_map]
  exact hdistinct.imp (by simp)

namespace Layout

theorem archiveAt_eq_ok (hbehind : found.offset + found.size ≤ found.position)
    (hcount : found.count ≤ bytes.size / 46)
    (hentries : entriesFrom bytes (found.position - (found.offset + found.size)) found.count
      (found.offset + (found.position - (found.offset + found.size))) [] = .ok entries.reverse)
    (hdistinct : (entries.map (·.name)).Nodup) : archiveAt bytes found = .ok entries := by
  unfold archiveAt
  rw [if_neg (Nat.not_lt.mpr hbehind), if_neg (Nat.not_lt.mpr hcount)]
  simp only [bind, Except.bind, pure, Except.pure, hentries, List.reverse_reverse,
    Archive.ofEntries_eq_self hdistinct]

/-- What stands in front of a directory's end is not looked at. -/
theorem search_eq_ok {position limit : Nat} (problem : Problem)
    (hfound : endAt? bytes position = some found) (harchive : archiveAt bytes found = .ok entries)
    (hposition : position < limit)
    (hlater : ∀ later < limit, position < later → endAt? bytes later = none) :
    search bytes problem limit = .ok entries := by
  induction limit with
  | zero => omega
  | succ limit ih =>
      rw [search]
      by_cases hlast : position = limit
      · rw [← hlast, hfound]
        dsimp only
        rw [harchive]
      · rw [hlater limit (by omega) (by omega)]
        exact ih (by omega) fun later hlt => hlater later (by omega)

end Layout

theorem Archive.ofBytes_eq_ok {position : Nat}
    (hfound : Layout.endAt? bytes position = some found)
    (harchive : Layout.archiveAt bytes found = .ok entries)
    (hlater : ∀ later < bytes.size, position < later → Layout.endAt? bytes later = none) :
    Archive.ofBytes bytes = .ok entries := by
  refine Layout.search_eq_ok .noEnd hfound harchive ?_ hlater
  by_contra hbeyond
  have hnone : Layout.endAt? bytes position = none := by
    unfold Layout.endAt?
    rw [if_pos]
    simp only [Bool.or_eq_true, decide_eq_true_eq]
    exact .inl (by omega)
  rw [hnone] at hfound
  cases hfound

end Conformance.Zip
