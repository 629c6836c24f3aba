import Conformance.Host.Basic
import Conformance.Proofs.Path.Ordinary

namespace Conformance.Host

open Conformance.Path (Ordinary ofNames)

/-! Where names lead, told step by step. -/

/-- With so many links left, the names lead from one location to another; the
last one may name what is not there yet. -/
inductive Leads (host : Host) : Nat → Location → List String → Location → Prop
  | here {links : Nat} {reached : Location} : Leads host links reached [] reached
  | dot {links : Nat} {reached found : Location} {ahead : List String}
      (hfolder : host.isFolderAt reached = true)
      (hrest : Leads host links reached ahead found) :
      Leads host links reached ("." :: ahead) found
  | dots {links : Nat} {reached found : Location} {ahead : List String}
      (hfolder : host.isFolderAt reached = true)
      (hrest : Leads host links reached.dropLast ahead found) :
      Leads host links reached (".." :: ahead) found
  | free {links : Nat} {reached : Location} {name : String}
      (hfolder : host.isFolderAt reached = true)
      (hdot : name ≠ ".") (hdots : name ≠ "..") (hlong : name.utf8ByteSize ≤ longestName)
      (hfree : host.get? (reached ++ [name]) = none) :
      Leads host links reached [name] (reached ++ [name])
  | link {links : Nat} {reached found : Location} {name target : String} {ahead : List String}
      (hfolder : host.isFolderAt reached = true)
      (hdot : name ≠ ".") (hdots : name ≠ "..") (hlong : name.utf8ByteSize ≤ longestName)
      (hlink : host.get? (reached ++ [name]) = some (.link target))
      (hrest : Leads host links (if isAbsolute target then [] else reached)
        (names target ++ ahead) found) :
      Leads host (links + 1) reached (name :: ahead) found
  | into {links : Nat} {reached found : Location} {name : String} {ahead : List String}
      {entry : Entry} (hfolder : host.isFolderAt reached = true)
      (hdot : name ≠ ".") (hdots : name ≠ "..") (hlong : name.utf8ByteSize ≤ longestName)
      (hentry : host.get? (reached ++ [name]) = some entry)
      (hplain : ∀ target, entry ≠ .link target)
      (hrest : Leads host links (reached ++ [name]) ahead found) :
      Leads host links reached (name :: ahead) found

variable {host : Host} {last : Bool} {links : Nat} {reached location found : Location}

theorem leads_of_follow {ahead : List String}
    (h : host.follow true links reached ahead = .ok found) :
    host.Leads links reached ahead found := by
  fun_induction host.follow true links reached ahead with
  | case1 links reached =>
      cases h
      exact .here
  | case2 => cases h
  | case3 links reached ahead hfolder ih =>
      exact .dot (by simpa using hfolder) (ih h)
  | case4 links reached ahead hfolder hdot ih =>
      exact .dots (by simpa using hfolder) (ih h)
  | case5 => cases h
  | case6 links reached name ahead hfolder hdot hdots hlong next hfree hempty =>
      injection h with hfound
      rw [List.isEmpty_iff] at hempty
      subst hempty hfound
      exact .free (by simpa using hfolder) hdot hdots (by omega) hfree
  | case7 => cases h
  | case8 links reached name ahead hfolder hdot hdots hlong next target hlink hlast =>
      simp at hlast
  | case9 => cases h
  | case10 reached name ahead hfolder hdot hdots hlong next target hlink hlast links ih =>
      exact .link (by simpa using hfolder) hdot hdots (by omega) hlink (by simpa using ih h)
  | case11 links reached name ahead hfolder hdot hdots hlong next entry hplain hentry ih =>
      exact .into (by simpa using hfolder) hdot hdots (by omega) hentry hplain (ih h)

theorem follow_dot {ahead : List String} (hfolder : host.isFolderAt reached = true) :
    host.follow last links reached ("." :: ahead) = host.follow last links reached ahead := by
  rw [follow]
  simp [hfolder]

theorem follow_dots {ahead : List String} (hfolder : host.isFolderAt reached = true) :
    host.follow last links reached (".." :: ahead) =
      host.follow last links reached.dropLast ahead := by
  rw [follow]
  simp [hfolder]

theorem follow_link {name target : String} {ahead : List String}
    (hfolder : host.isFolderAt reached = true) (hdot : name ≠ ".") (hdots : name ≠ "..")
    (hlong : name.utf8ByteSize ≤ longestName)
    (hlink : host.get? (reached ++ [name]) = some (.link target))
    (hlast : last = true ∨ ahead ≠ []) :
    host.follow last (links + 1) reached (name :: ahead) =
      host.follow last links (if isAbsolute target then [] else reached)
        (names target ++ ahead) := by
  rw [follow]
  rcases hlast with hlast | hlast
  · simp [hfolder, hdot, hdots, hlink, hlast, Nat.not_lt.mpr hlong]
  · simp [hfolder, hdot, hdots, hlink, hlast, Nat.not_lt.mpr hlong]

theorem follow_into {name : String} {ahead : List String} {entry : Entry}
    (hfolder : host.isFolderAt reached = true) (hdot : name ≠ ".") (hdots : name ≠ "..")
    (hlong : name.utf8ByteSize ≤ longestName)
    (hentry : host.get? (reached ++ [name]) = some entry)
    (hplain : ∀ target, entry ≠ .link target) :
    host.follow last links reached (name :: ahead) =
      host.follow last links (reached ++ [name]) ahead := by
  rw [follow]
  cases entry with
  | file bytes => simp [hfolder, hdot, hdots, hentry, Nat.not_lt.mpr hlong]
  | folder => simp [hfolder, hdot, hdots, hentry, Nat.not_lt.mpr hlong]
  | link target => exact absurd rfl (hplain target)

theorem follow_of_leads {ahead : List String} (h : host.Leads links reached ahead found) :
    host.follow true links reached ahead = .ok found := by
  induction h with
  | here => rw [follow]
  | dot hfolder hrest ih => exact (follow_dot hfolder).trans ih
  | dots hfolder hrest ih => exact (follow_dots hfolder).trans ih
  | free hfolder hdot hdots hlong hfree =>
      rw [follow]
      simp [hfolder, hdot, hdots, hfree, Nat.not_lt.mpr hlong]
  | link hfolder hdot hdots hlong hlink hrest ih =>
      exact (follow_link hfolder hdot hdots hlong hlink (.inl rfl)).trans ih
  | into hfolder hdot hdots hlong hentry hplain hrest ih =>
      exact (follow_into hfolder hdot hdots hlong hentry hplain).trans ih

theorem leads_iff_follow {ahead : List String} :
    host.Leads links reached ahead found ↔ host.follow true links reached ahead = .ok found :=
  ⟨follow_of_leads, leads_of_follow⟩

theorem Leads.follow_behind {front : List String}
    (hfront : host.Leads links reached front location)
    (hfolder : host.isFolderAt location = true) :
    ∃ fewer, ∀ last rest, last = true ∨ rest ≠ [] →
      host.follow last links reached (front ++ rest) = host.follow last fewer location rest := by
  induction hfront with
  | here => exact ⟨_, fun last rest _ => rfl⟩
  | dot hreached hrest ih =>
      obtain ⟨fewer, heq⟩ := ih hfolder
      exact ⟨fewer, fun last rest hlast => (follow_dot hreached).trans (heq last rest hlast)⟩
  | dots hreached hrest ih =>
      obtain ⟨fewer, heq⟩ := ih hfolder
      exact ⟨fewer, fun last rest hlast => (follow_dots hreached).trans (heq last rest hlast)⟩
  | free hreached hdot hdots hlong hfree =>
      simp [isFolderAt, hfree] at hfolder
  | link hreached hdot hdots hlong hlink hrest ih =>
      obtain ⟨fewer, heq⟩ := ih hfolder
      refine ⟨fewer, fun last rest hlast => ?_⟩
      rw [← heq last rest hlast, List.append_assoc, List.cons_append]
      exact follow_link hreached hdot hdots hlong hlink
        (hlast.imp_right fun hrest => List.append_ne_nil_of_right_ne_nil _ hrest)
  | into hreached hdot hdots hlong hentry hplain hrest ih =>
      obtain ⟨fewer, heq⟩ := ih hfolder
      exact ⟨fewer, fun last rest hlast =>
        (follow_into hreached hdot hdots hlong hentry hplain).trans (heq last rest hlast)⟩

theorem Leads.follow_append {front : List String}
    (hfront : host.Leads links reached front location)
    (hfolder : host.isFolderAt location = true) :
    ∃ fewer, ∀ rest, host.follow true links reached (front ++ rest) =
      host.follow true fewer location rest := by
  obtain ⟨fewer, heq⟩ := hfront.follow_behind hfolder
  exact ⟨fewer, fun rest => heq true rest (.inl rfl)⟩

theorem leads_of_append_dot {front : List String}
    (h : host.Leads links reached (front ++ ["."]) found) :
    host.Leads links reached front found := by
  -- a link puts its target in front of the names, so they do not carry the induction
  generalize hpath : front ++ ["."] = path at h
  induction h generalizing front with
  | here => simp at hpath
  | dot hreached hrest ih =>
      rcases List.append_eq_cons_iff.mp hpath with ⟨rfl, hrest'⟩ | ⟨more, rfl, hrest'⟩
      · injection hrest' with _ hempty
        subst hempty
        cases hrest
        exact .here
      · exact .dot hreached (ih hrest'.symm)
  | dots hreached hrest ih =>
      rcases List.append_eq_cons_iff.mp hpath with ⟨rfl, hrest'⟩ | ⟨more, rfl, hrest'⟩
      · exact absurd hrest' (by simp)
      · exact .dots hreached (ih hrest'.symm)
  | free hreached hdot hdots hlong hfree =>
      rcases List.append_eq_cons_iff.mp hpath with ⟨rfl, hrest'⟩ | ⟨more, rfl, hrest'⟩
      · injection hrest' with hname _
        exact absurd hname.symm hdot
      · simp at hrest'
  | link hreached hdot hdots hlong hlink hrest ih =>
      rcases List.append_eq_cons_iff.mp hpath with ⟨rfl, hrest'⟩ | ⟨more, rfl, hrest'⟩
      · injection hrest' with hname _
        exact absurd hname.symm hdot
      · refine .link hreached hdot hdots hlong hlink (ih ?_)
        rw [hrest', List.append_assoc]
  | into hreached hdot hdots hlong hentry hplain hrest ih =>
      rcases List.append_eq_cons_iff.mp hpath with ⟨rfl, hrest'⟩ | ⟨more, rfl, hrest'⟩
      · injection hrest' with hname _
        exact absurd hname.symm hdot
      · exact .into hreached hdot hdots hlong hentry hplain (ih hrest'.symm)

def IsLinkFree (host : Host) (location : Location) : Prop :=
  ∀ rest target, rest ≠ [] → host.get? (location ++ rest) ≠ some (.link target)

theorem IsLinkFree.below (hfree : host.IsLinkFree location) (front : Location) :
    host.IsLinkFree (location ++ front) := by
  intro rest target hrest
  rw [List.append_assoc]
  exact hfree (front ++ rest) target (by simp [hrest])

theorem Leads.eq_append {rest : List String} (hrest : ∀ name ∈ rest, Ordinary name)
    (hfree : host.IsLinkFree location) (h : host.Leads links location rest found) :
    found = location ++ rest := by
  induction h with
  | here => simp
  | dot => exact absurd rfl (hrest "." List.mem_cons_self).ne_dot
  | dots => exact absurd rfl (hrest ".." List.mem_cons_self).ne_dots
  | free => rfl
  | link hreached hdot hdots hlong hlink => exact absurd hlink (hfree _ _ (by simp))
  | into hreached hdot hdots hlong hentry hplain hahead ih =>
      rw [ih (fun name hname => hrest name (List.mem_cons_of_mem _ hname)) (hfree.below _)]
      simp

theorem Leads.down {rest : List String} {entry : Entry}
    (hrest : ∀ name ∈ rest, Ordinary name ∧ name.utf8ByteSize ≤ longestName)
    (hfolders : ∀ front, front <+: rest → front ≠ rest →
      host.get? (location ++ front) = some .folder)
    (hentry : host.get? (location ++ rest) = some entry) (hplain : ∀ target, entry ≠ .link target) :
    host.Leads links location rest (location ++ rest) := by
  induction rest generalizing location with
  | nil =>
      rw [List.append_nil]
      exact .here
  | cons name rest ih =>
      rw [List.forall_mem_cons] at hrest
      have hfolder : host.isFolderAt location = true := by
        have hhere := hfolders [] List.nil_prefix (by simp)
        rw [List.append_nil] at hhere
        simp [isFolderAt, hhere]
      have happend : location ++ name :: rest = location ++ [name] ++ rest := by simp
      have hnext : ∃ next, host.get? (location ++ [name]) = some next ∧
          ∀ target, next ≠ .link target := by
        by_cases hempty : rest = []
        · subst hempty
          exact ⟨entry, hentry, hplain⟩
        · exact ⟨.folder, hfolders [name] (by simp) (by simpa using Ne.symm hempty), by simp⟩
      obtain ⟨next, hget, hnextPlain⟩ := hnext
      rw [happend] at hentry ⊢
      refine .into hfolder hrest.1.1.ne_dot hrest.1.1.ne_dots hrest.1.2 hget hnextPlain
        (ih hrest.2 ?_ hentry)
      intro front hfront hne
      rw [List.append_assoc]
      exact hfolders ([name] ++ front) (by simpa using hfront) (by simpa using hne)

theorem Leads.front {front rest : List String} (hfront : ∀ name ∈ front, Ordinary name)
    (hfree : host.IsLinkFree location) (hne : rest ≠ [])
    (h : host.Leads links location (front ++ rest) found) :
    host.Leads links location front (location ++ front) ∧
      host.isFolderAt (location ++ front) = true := by
  induction front generalizing location with
  | nil =>
      rw [List.append_nil]
      refine ⟨.here, ?_⟩
      cases h with
      | here => contradiction
      | dot hfolder => exact hfolder
      | dots hfolder => exact hfolder
      | free hfolder => exact hfolder
      | link hfolder => exact hfolder
      | into hfolder => exact hfolder
  | cons name front ih =>
      rw [List.forall_mem_cons] at hfront
      rw [List.cons_append] at h
      generalize hahead : front ++ rest = ahead at h
      cases h with
      | dot => exact absurd rfl hfront.1.ne_dot
      | dots => exact absurd rfl hfront.1.ne_dots
      | free => exact absurd (List.append_eq_nil_iff.mp hahead).2 hne
      | link hfolder hdot hdots hlong hlink => exact absurd hlink (hfree _ _ (by simp))
      | into hfolder hdot hdots hlong hentry hplain hrest =>
          subst hahead
          obtain ⟨hleads, hbelow⟩ := ih hfront.2 (hfree.below [name]) hrest
          rw [List.append_assoc, List.singleton_append] at hleads hbelow
          exact ⟨.into hfolder hdot hdots hlong hentry hplain hleads, hbelow⟩

end Conformance.Host
