import Conformance.Proofs.Host.Confined

namespace Conformance.Host

open Conformance.Path (Ordinary ofNames)

/-! Two hosts that differ at and below some names in a folder only. A path that goes on behind
another name in the folder comes to the same on both, and a change by such a path leaves them
as different as they were. -/

variable {host other : Host} {home location source target : Location} {names path : List String}
  {folder name text sourceText targetText : String} {away : Location → Prop} {last : Bool}

namespace SameBut

variable (h : host.SameBut away other)

include h

theorem put (hne : location ≠ []) (entry : Entry) :
    (host.put location entry).SameBut away (other.put location entry) := by
  refine ⟨h.workingFolder, fun place hplace => ?_⟩
  rw [get?_put other location place entry hne, get?_put host location place entry hne,
    h.get? place hplace]

theorem drop (hne : location ≠ []) : (host.drop location).SameBut away (other.drop location) := by
  refine ⟨h.workingFolder, fun place hplace => ?_⟩
  rw [get?_drop hne, get?_drop hne, h.get? place hplace]

theorem dropTree (hne : location ≠ []) :
    (host.dropTree location).SameBut away (other.dropTree location) := by
  refine ⟨h.workingFolder, fun place hplace => ?_⟩
  rw [get?_dropTree hne, get?_dropTree hne, h.get? place hplace]

theorem moveTree (hsource : source ≠ []) (htarget : target ≠ [])
    (htree : ∀ rest, other.get? (source ++ rest) = host.get? (source ++ rest)) :
    (host.moveTree source target).SameBut away (other.moveTree source target) := by
  obtain ⟨hmoved, hleft⟩ := get?_moveTree host hsource htarget
  obtain ⟨hmoved', hleft'⟩ := get?_moveTree other hsource htarget
  refine ⟨h.workingFolder, fun place hplace => ?_⟩
  by_cases hbehind : target <+: place
  · obtain ⟨rest, rfl⟩ := hbehind
    rw [hmoved', hmoved, htree]
  · rw [hleft' place hbehind, hleft place hbehind, h.get? place hplace]

end SameBut

/-- Two changes fail alike, or they come about and leave the hosts the same, but for some
locations. -/
inductive Alike (away : Location → Prop) : Changed → Changed → Prop
  | failed (fault : Fault) : Alike away (.error fault) (.error fault)
  | changed {left right : Host} (same : left.SameBut away right) : Alike away (.ok left) (.ok right)

theorem Alike.exists_eq {left right : Changed} (h : Alike away left right) :
    (∃ fault, left = .error fault ∧ right = .error fault) ∨
      ∃ host other, left = .ok host ∧ right = .ok other ∧ host.SameBut away other := by
  cases h with
  | failed fault => exact .inl ⟨fault, rfl, rfl⟩
  | changed same => exact .inr ⟨_, _, rfl, rfl, same⟩

/-- The same is told of two hosts that are the same, but for some locations. -/
def Together {α : Type} (away : Location → Prop) (left right : Host × α) : Prop :=
  right.2 = left.2 ∧ left.1.SameBut away right.1

theorem Together.map {α β : Type} {left right : Host × α} (h : Together away left right)
    (f : α → β) : Together away (left.1, f left.2) (right.1, f right.2) :=
  ⟨congrArg f h.1, h.2⟩

/-- A path finds the same on both hosts, and nothing at or below the names, or in front of
them. -/
structure FindsAlike (names : List String) (home : Location) (host other : Host)
    (text : String) : Prop where
  find : ∀ last, other.find text last = host.find text last
  beside : ∀ last location, host.find text last = .ok location →
    ∃ name ∉ names, ∃ rest, location = home ++ name :: rest

namespace FindsAlike

variable (h : FindsAlike names home host other text) (hsame : host.SameBut (Under home names) other)

include h

theorem ne_nil (hfind : host.find text last = .ok location) : location ≠ [] := by
  obtain ⟨name, -, rest, rfl⟩ := h.beside last location hfind
  simp

include hsame

theorem get?_append (hfind : host.find text last = .ok location) (rest : Location) :
    other.get? (location ++ rest) = host.get? (location ++ rest) := by
  obtain ⟨name, hname, more, rfl⟩ := h.beside last location hfind
  rw [List.append_assoc, List.cons_append]
  exact hsame.get? _ (not_under_append hname (more ++ rest))

theorem get? (hfind : host.find text last = .ok location) :
    other.get? location = host.get? location := by
  simpa using h.get?_append hsame hfind []

theorem resolve : other.resolve text = host.resolve text := by
  unfold Host.resolve
  rw [h.find]
  cases hfind : host.find text with
  | error fault => rfl
  | ok location => simp only [bind, Except.bind, h.get? hsame hfind]

theorem isPresent : other.isPresent text = host.isPresent text := by
  rw [Host.isPresent, Host.isPresent, h.resolve hsame]

theorem isFolder : other.isFolder text = host.isFolder text := by
  rw [Host.isFolder, Host.isFolder, h.resolve hsame]

theorem read : other.read text = host.read text := by
  rw [Host.read, Host.read, h.resolve hsame]

theorem createFolder : Alike (Under home names) (host.createFolder text)
    (other.createFolder text) := by
  unfold Host.createFolder
  rw [h.find]
  cases hfind : host.find text false with
  | error fault => exact .failed fault
  | ok location =>
      simp only [bind, Except.bind, h.get? hsame hfind]
      cases host.get? location with
      | none => exact .changed (hsame.put (h.ne_nil hfind) _)
      | some entry => exact .failed _

theorem write (bytes : ByteArray) : Alike (Under home names) (host.write text bytes)
    (other.write text bytes) := by
  unfold Host.write
  rw [h.find]
  cases hfind : host.find text with
  | error fault => exact .failed fault
  | ok location =>
      have hchanged := Alike.changed (hsame.put (h.ne_nil hfind) (.file bytes))
      simp only [bind, Except.bind, h.get? hsame hfind]
      cases host.get? location with
      | none => exact hchanged
      | some entry =>
          cases entry with
          | file before => exact hchanged
          | folder => exact .failed _
          | link target => exact .failed _

theorem remove : Alike (Under home names) (host.remove text) (other.remove text) := by
  unfold Host.remove
  rw [h.find]
  cases hfind : host.find text false with
  | error fault => exact .failed fault
  | ok location =>
      have hchanged := Alike.changed (hsame.drop (h.ne_nil hfind))
      simp only [bind, Except.bind, h.get? hsame hfind]
      cases host.get? location with
      | none => exact .failed _
      | some entry =>
          cases entry with
          | file bytes => exact hchanged
          | folder => exact .failed _
          | link target => exact hchanged

theorem removeTree : Alike (Under home names) (host.removeTree text) (other.removeTree text) := by
  unfold Host.removeTree
  rw [h.find]
  cases hfind : host.find text false with
  | error fault => exact .failed fault
  | ok location =>
      simp only [bind, Except.bind, h.get? hsame hfind]
      cases host.get? location with
      | none => exact .failed _
      | some entry =>
          cases entry with
          | file bytes => exact .failed _
          | folder => exact .changed (hsame.dropTree (h.ne_nil hfind))
          | link target => exact .changed (hsame.drop (h.ne_nil hfind))

end FindsAlike

theorem isEmpty_contents_congr
    (hbelow : ∀ rest, other.get? (location ++ rest) = host.get? (location ++ rest)) :
    (other.contents location).isEmpty = (host.contents location).isEmpty := by
  rw [Bool.eq_iff_iff, List.isEmpty_iff, List.isEmpty_iff, List.eq_nil_iff_forall_not_mem,
    List.eq_nil_iff_forall_not_mem]
  simp only [Prod.forall, mem_contents_iff, hbelow]

theorem FindsAlike.rename (hsource : FindsAlike names home host other sourceText)
    (htarget : FindsAlike names home host other targetText)
    (hsame : host.SameBut (Under home names) other) :
    Alike (Under home names) (host.rename sourceText targetText)
      (other.rename sourceText targetText) := by
  unfold Host.rename
  rw [hsource.find, htarget.find]
  cases hold : host.find sourceText false with
  | error fault => exact .failed fault
  | ok old =>
      cases hnew : host.find targetText false with
      | error fault => exact .failed fault
      | ok new =>
          have hmoved := Alike.changed (hsame.moveTree (hsource.ne_nil hold) (htarget.ne_nil hnew)
            (hsource.get?_append hsame hold))
          have hempty := isEmpty_contents_congr (htarget.get?_append hsame hnew)
          simp only [bind, Except.bind, hsource.get? hsame hold, htarget.get? hsame hnew, hempty]
          split
          · exact .failed _
          · exact hmoved
          · split
            · exact .changed hsame
            · split
              · exact hmoved
              · exact .failed _
          · exact .failed _
          · exact .failed _
          · split
            · exact .changed hsame
            · exact hmoved

theorem follow_congr (hpath : ∀ name ∈ path, Ordinary name) (hclear : host.IsClear home path)
    (hsame : ∀ front, front <+: path → other.get? (home ++ front) = host.get? (home ++ front))
    (links fewer : Nat) :
    other.follow last fewer home path = host.follow last links home path := by
  induction path generalizing home with
  | nil => rw [follow, follow]
  | cons name path ih =>
      rw [List.forall_mem_cons] at hpath
      have hplain := hclear [name] (by simp) (by simp)
      have hfolder : other.isFolderAt home = host.isFolderAt home := by
        have hhere := hsame [] List.nil_prefix
        rw [List.append_nil] at hhere
        rw [isFolderAt, isFolderAt, hhere]
      have hnext := hsame [name] (by simp)
      have hrest := ih hpath.2 hclear.tail fun front hfront => by
        rw [List.append_assoc]
        exact hsame (name :: front) (by simpa using hfront)
      rw [follow, follow]
      simp only [hfolder, hpath.1.ne_dot, hpath.1.ne_dots, if_false, hnext]
      cases hentry : host.get? (home ++ [name]) with
      | none => rfl
      | some entry =>
          cases entry with
          | file bytes => simp only [hrest]
          | folder => simp only [hrest]
          | link target => exact absurd hentry (hplain target)

/-- Two hosts with the same folder, the same but for some names in it. -/
structure Twins (names : List String) (folder : String) (home : Location) (host other : Host) :
    Prop where
  opens : host.Opens folder home
  opensOther : other.Opens folder home
  same : host.SameBut (Under home names) other

namespace Twins

variable (h : Twins names folder home host other)

include h

theorem findsAlike_name (hname : '\x00' ∉ name.toList → Ordinary name)
    (hplain : ∀ target, host.get? (home ++ [name]) ≠ some (.link target)) (hbeside : name ∉ names) :
    FindsAlike names home host other (join folder name) := by
  have hthere := h.same.get? _ (not_under_append hbeside [])
  have hfind (last : Bool) : host.find (join folder name) last = reach folder name home :=
    h.opens.find_name hname (.inr hplain)
  refine ⟨fun last => ?_, fun last location hlocation => ?_⟩
  · rw [hfind]
    exact h.opensOther.find_name hname (.inr (hthere ▸ hplain))
  · rw [hfind] at hlocation
    exact ⟨name, hbeside, [], reach_eq_ok hlocation⟩

section

variable (hpath : ∀ other ∈ name :: path, Ordinary other)
  (hclear : host.IsClear home (name :: path)) (hbeside : name ∉ names)

include hpath hclear hbeside

theorem findsAlike : FindsAlike names home host other (join folder (ofNames (name :: path))) := by
  have hthere : ∀ front, front <+: name :: path →
      other.get? (home ++ front) = host.get? (home ++ front) := by
    intro front hfront
    cases front with
    | nil =>
        rw [List.append_nil]
        exact h.same.get? home not_under_home
    | cons first front =>
        obtain ⟨rfl, -⟩ := List.cons_prefix_cons.mp hfront
        exact h.same.get? _ (not_under_append hbeside front)
  obtain ⟨links, hfind⟩ := h.opens.find
  obtain ⟨fewer, hfind'⟩ := h.opensOther.find
  refine ⟨fun last => ?_, fun last location hlocation => ?_⟩
  · rw [hfind' last _ hpath (by simp), hfind last _ hpath (by simp),
      follow_congr hpath hclear hthere links fewer]
  · obtain ⟨hlocation, -⟩ := h.opens.eq_append_of_find hpath (by simp) hclear hlocation
    exact ⟨name, hbeside, path, hlocation⟩

theorem isClear_other : other.IsClear home (name :: path) := by
  intro front hne hfront target
  cases front with
  | nil => contradiction
  | cons first front =>
      obtain ⟨rfl, -⟩ := List.cons_prefix_cons.mp hfront
      rw [h.same.get? _ (not_under_append hbeside front)]
      exact hclear _ hne hfront target

theorem isFolder : other.isFolder (join folder (ofNames (name :: path))) =
    host.isFolder (join folder (ofNames (name :: path))) :=
  (h.findsAlike hpath hclear hbeside).isFolder h.same

theorem createFolder : Alike (Under home names)
    (host.createFolder (join folder (ofNames (name :: path))))
    (other.createFolder (join folder (ofNames (name :: path)))) :=
  (h.findsAlike hpath hclear hbeside).createFolder h.same

theorem createFoldersFrom (fuel : Nat) : Together (Under home names)
    (host.createFoldersFrom fuel (join folder (ofNames (name :: path))))
    (other.createFoldersFrom fuel (join folder (ofNames (name :: path)))) := by
  have hempty {path : List String} (hpath : ∀ other ∈ name :: path, Ordinary other) :
      ¬ (join folder (ofNames (name :: path))).isEmpty = true := by
    simpa using join_ne_empty hpath folder (by simp)
  induction fuel generalizing path with
  | zero =>
      rw [Host.createFoldersFrom.eq_def, Host.createFoldersFrom.eq_def]
      dsimp only
      rw [if_neg (hempty hpath), if_neg (hempty hpath), h.isFolder hpath hclear hbeside]
      rcases (h.createFolder hpath hclear hbeside).exists_eq with
        ⟨fault, hleft, hright⟩ | ⟨left, right, hleft, hright, hsame⟩
      · rw [hleft, hright]
        cases fault with
        | noEntry => exact ⟨rfl, h.same⟩
        | _ => exact ⟨rfl, h.same⟩
      · rw [hleft, hright]
        exact ⟨rfl, hsame⟩
  | succ fuel ih =>
      rw [Host.createFoldersFrom.eq_def, Host.createFoldersFrom.eq_def]
      dsimp only
      rw [if_neg (hempty hpath), if_neg (hempty hpath), h.isFolder hpath hclear hbeside]
      rcases (h.createFolder hpath hclear hbeside).exists_eq with
        ⟨fault, hleft, hright⟩ | ⟨left, right, hleft, hright, hsame⟩
      · rw [hleft, hright]
        cases fault with
        | noEntry =>
            obtain ⟨front, last, hne, heq⟩ := h.opens.two_of_noEntry (by simp) hpath hleft
            obtain ⟨more, rfl⟩ : ∃ more, front = name :: more := by
              cases front with
              | nil => contradiction
              | cons first more => exact ⟨more, by rw [(List.cons.inj heq).1]⟩
            obtain rfl : path = more ++ [last] := (List.cons.inj heq).2
            have hfront : ∀ other ∈ name :: more, Ordinary other := fun other hother =>
              hpath other (List.mem_append_left [last] hother)
            have hclearFront := hclear.of_prefix (List.prefix_append (name :: more) [last])
            have hgrown := (h.opens.makes_createFoldersFrom hfront hne hclearFront fuel).1
            have hgrown' := (h.opensOther.makes_createFoldersFrom hfront hne
              (h.isClear_other hfront hclearFront hbeside) fuel).1
            have hmade := ih hfront hclearFront
            have hparent := parentPath?_join_append folder hfront (hpath last (by simp)) hne
            rw [← List.cons_append, hparent]
            dsimp only
            generalize host.createFoldersFrom fuel (join folder (ofNames (name :: more))) =
              outcome at hmade hgrown ⊢
            generalize other.createFoldersFrom fuel (join folder (ofNames (name :: more))) =
              outcome' at hmade hgrown' ⊢
            obtain ⟨between, fault?⟩ := outcome
            obtain ⟨between', fault'?⟩ := outcome'
            obtain ⟨rfl, hsame⟩ := hmade
            cases fault'? with
            | some fault => exact ⟨rfl, hsame⟩
            | none =>
                have htwins : Twins names folder home between between' :=
                  ⟨hgrown.opens h.opens, hgrown'.opens h.opensOther, hsame⟩
                have hclearBetween : between.IsClear home (name :: (more ++ [last])) :=
                  fun front hfront hshorter => hgrown.ne_link (hclear front hfront hshorter)
                dsimp only
                rw [List.cons_append, htwins.isFolder hpath hclearBetween hbeside]
                rcases (htwins.createFolder hpath hclearBetween hbeside).exists_eq with
                  ⟨fault, hleft, hright⟩ | ⟨left, right, hleft, hright, hmore⟩
                · rw [hleft, hright]
                  exact ⟨rfl, hsame⟩
                · rw [hleft, hright]
                  exact ⟨rfl, hmore⟩
        | _ => exact ⟨rfl, h.same⟩
      · rw [hleft, hright]
        exact ⟨rfl, hsame⟩

theorem createFolders : Together (Under home names)
    (host.createFolders (join folder (ofNames (name :: path))))
    (other.createFolders (join folder (ofNames (name :: path)))) :=
  h.createFoldersFrom hpath hclear hbeside _

end

end Twins

variable {left right : Host} {links : Nat} {reached found : Location} {ahead : List String}

def without (host : Host) (home : Location) (names : List String) : Host :=
  names.foldl (fun host name => host.dropTree (home ++ [name])) host

theorem sameBut_without (host : Host) (home : Location) (names : List String) :
    host.SameBut (Under home names) (host.without home names) := by
  induction names generalizing host with
  | nil => exact .refl _ host
  | cons name names ih =>
      have hdropped : host.Confined (host.dropTree (home ++ [name])) home (name :: names) :=
        confined_dropTree List.mem_cons_self host
      have hmore := (ih (host.dropTree (home ++ [name]))).mono fun location hlocation =>
        hlocation.mono (List.subset_cons_self name names)
      exact hdropped.same.trans hmore

theorem get?_without (host : Host) (h : Under home names location) :
    (host.without home names).get? location = none := by
  induction names generalizing host with
  | nil =>
      obtain ⟨name, hname, -⟩ := h
      cases hname
  | cons name names ih =>
      by_cases hmore : Under home names location
      · exact ih (host.dropTree (home ++ [name])) hmore
      · obtain ⟨other, hother, hbehind⟩ := h
        obtain rfl : other = name := by
          refine (List.mem_cons.mp hother).resolve_right fun hmem => hmore ⟨other, hmem, hbehind⟩
        have hsame := (sameBut_without (host.dropTree (home ++ [other])) home names).get? _ hmore
        exact hsame.trans (by rw [get?_dropTree (by simp), if_pos hbehind])

theorem Leads.of_both (hleft : left.Leads links reached ahead found)
    (hright : right.Leads links reached ahead found)
    (hboth : ∀ location entry entry', left.get? location = some entry →
      right.get? location = some entry' → entry' = entry ∧ other.get? location = some entry)
    (hfound : left.get? found = other.get? found) (hfound' : right.get? found = other.get? found) :
    other.Leads links reached ahead found := by
  have hfolders {place : Location} (h : left.isFolderAt place = true)
      (h' : right.isFolderAt place = true) : other.isFolderAt place = true :=
    isFolderAt_iff.mpr (hboth place _ _ (isFolderAt_iff.mp h) (isFolderAt_iff.mp h')).2
  induction hleft with
  | here => exact .here
  | dot hfolder hrest ih =>
      generalize hname : "." = name at hright
      cases hright with
      | dot hfolder' hrest' => exact .dot (hfolders hfolder hfolder') (ih hrest' hfound hfound')
      | dots => exact absurd hname (by decide)
      | _ => exact absurd hname.symm ‹_›
  | dots hfolder hrest ih =>
      generalize hname : ".." = name at hright
      cases hright with
      | dots hfolder' hrest' => exact .dots (hfolders hfolder hfolder') (ih hrest' hfound hfound')
      | dot => exact absurd hname (by decide)
      | _ => exact absurd hname.symm ‹_›
  | @free links reached name hfolder hdot hdots hlong hfree =>
      have hfolder' : right.isFolderAt reached = true := by
        generalize reached ++ [name] = found at hright
        cases hright <;> assumption
      exact .free (hfolders hfolder hfolder') hdot hdots hlong (hfound.symm.trans hfree)
  | @link links reached found name target ahead hfolder hdot hdots hlong hlink hrest ih =>
      cases hright with
      | link hfolder' _ _ _ hlink' hrest' =>
          obtain ⟨heq, hthere⟩ := hboth _ _ _ hlink hlink'
          cases heq
          exact .link (hfolders hfolder hfolder') hdot hdots hlong hthere (ih hrest' hfound hfound')
      | into _ _ _ _ hentry hplain =>
          exact absurd (hboth _ _ _ hlink hentry).1 (hplain target)
      | free _ _ _ _ hfree =>
          rw [hfound', ← hfound, hlink] at hfree
          cases hfree
      | _ => contradiction
  | into hfolder hdot hdots hlong hentry hplain hrest ih =>
      cases hright with
      | into hfolder' _ _ _ hentry' _ hrest' =>
          exact .into (hfolders hfolder hfolder') hdot hdots hlong (hboth _ _ _ hentry hentry').2
            hplain (ih hrest' hfound hfound')
      | link _ _ _ _ hlink =>
          exact absurd (hboth _ _ _ hentry hlink).1.symm (hplain _)
      | free _ _ _ _ hfree =>
          rw [hfound', ← hfound, hentry] at hfree
          cases hfree
      | _ => contradiction
end Conformance.Host
