import Conformance.Proofs.Host.Confined
import Conformance.Proofs.Path.Along

namespace Conformance.Host

open Conformance.Path (Ordinary along StaysInside)

/-! Files and folders that are put in place by paths whose names may lead up again. -/

variable {host other next : Host} {folder path parent text : String} {segments : List String}
  {home location found behind : Location} {last : Bool} {links : Nat} {bytes : ByteArray}
  {places wider : Location → Prop}

theorem parts_join_of_relative (folder : String) (htext : isAbsolute text = false) :
    parts (join folder text) = parts folder ++ parts text := by
  obtain ⟨before, hlead, hjoin⟩ := exists_join_eq folder
  rw [hjoin text htext]
  rcases hlead with ⟨rfl, rfl⟩ | ⟨-, rfl⟩
  · rw [String.empty_append, parts_empty, List.nil_append]
  · obtain ⟨front, hfront, hlead⟩ := lead_eq folder
    rw [hlead, parts_append_slash]
    rcases hfront with rfl | rfl
    · rw [parts_append_slash_empty]
    · rfl

theorem isAbsolute_join_of_relative (folder : String) (htext : isAbsolute text = false) :
    isAbsolute (join folder text) = isAbsolute folder := by
  obtain ⟨before, hlead, hjoin⟩ := exists_join_eq folder
  rw [hjoin text htext]
  rcases hlead with ⟨rfl, rfl⟩ | ⟨hne, rfl⟩
  · rw [String.empty_append, htext]
    rfl
  · obtain ⟨c, rest, hfolder⟩ := List.exists_cons_of_ne_nil (mt String.toList_eq_nil_iff.mp hne)
    rw [Bool.eq_iff_iff, isAbsolute_iff, isAbsolute_iff, lead]
    split <;> simp [hfolder]

theorem parts_of_no_slash (hne : text ≠ "") (hslash : '/' ∉ text.toList) : parts text = [text] := by
  have hsplit : text.toList.splitOn '/' = [text.toList] := List.splitOn_eq_singleton hslash
  rw [parts, hsplit]
  simp [hne]

theorem parts_intercalate (hnames : ∀ name ∈ segments, name ≠ "" ∧ '/' ∉ name.toList) :
    parts ("/".intercalate segments) = segments ∧
      isAbsolute ("/".intercalate segments) = false := by
  induction segments with
  | nil => exact ⟨rfl, rfl⟩
  | cons name segments ih =>
      obtain ⟨⟨hne, hslash⟩, hnames⟩ := List.forall_mem_cons.mp hnames
      cases segments with
      | nil =>
          rw [String.intercalate_singleton]
          exact ⟨parts_of_no_slash hne hslash, isAbsolute_of_no_slash hslash⟩
      | cons other segments =>
          rw [String.intercalate_cons_of_ne_nil (by simp), parts_append_slash,
            parts_of_no_slash hne hslash, (ih hnames).1]
          refine ⟨rfl, ?_⟩
          obtain ⟨c, rest, hname⟩ :=
            List.exists_cons_of_ne_nil (mt String.toList_eq_nil_iff.mp hne)
          rw [Bool.eq_false_iff, Ne, isAbsolute_iff]
          rw [hname, List.mem_cons, not_or] at hslash
          simpa [hname] using Ne.symm hslash.1

theorem head?_rdropWhile {separates : Char → Bool} {chars : List Char}
    (hne : chars.rdropWhile separates ≠ []) :
    (chars.rdropWhile separates).head? = chars.head? := by
  obtain ⟨rest, hrest⟩ := List.rdropWhile_prefix separates (l := chars)
  conv_rhs => rw [← hrest]
  exact (List.head?_append_of_ne_nil _ hne).symm

theorem exists_last_name (hne : text.toList.rdropWhile (· == '/') ≠ []) :
    ∃ (front : List Char) (name : String), name ≠ "" ∧ '/' ∉ name.toList ∧
      text.toList.rdropWhile (· == '/') = front ++ name.toList ∧
      (front = [] ∨ ∃ more, front = more ++ ['/']) := by
  generalize hchars : text.toList.rdropWhile (· == '/') = chars at hne ⊢
  have hlast : chars.getLast hne ≠ '/' := by
    subst hchars
    simpa using List.rdropWhile_last_not (· == '/') text.toList hne
  refine ⟨chars.rdropWhile (· != '/'), .ofList (chars.rtakeWhile (· != '/')), ?_, ?_, ?_, ?_⟩
  · rw [Ne, ← String.toList_eq_nil_iff, String.toList_ofList, List.rtakeWhile_eq_nil_iff]
    exact fun h => h hne (by simpa using hlast)
  · rw [String.toList_ofList]
    exact fun hmem => by simpa using List.mem_rtakeWhile_imp hmem
  · rw [String.toList_ofList, List.rdropWhile, List.rtakeWhile, ← List.reverse_append,
      List.takeWhile_append_dropWhile, List.reverse_reverse]
  · refine (List.eq_nil_or_concat' _).imp_right fun ⟨more, c, hmore⟩ => ⟨more, ?_⟩
    have hc := List.rdropWhile_last_not (· != '/') chars (by simp [hmore])
    simp only [hmore, List.getLast_concat, bne_iff_ne, not_not] at hc
    rw [hmore, hc]

theorem rdropWhile_append_name {front : List Char} {name : String} (hslash : '/' ∉ name.toList)
    (hfront : front = [] ∨ ∃ more, front = more ++ ['/']) :
    (front ++ name.toList).rdropWhile (· != '/') = front := by
  rw [List.rdropWhile, List.reverse_append, List.dropWhile_append_of_pos]
  · rcases hfront with rfl | ⟨more, rfl⟩ <;> simp
  · intro c hc
    rw [bne_iff_ne]
    rintro rfl
    exact hslash (List.mem_reverse.mp hc)

theorem parts_parentPath? (h : parentPath? text = some parent) :
    parts parent = (parts text).dropLast ∧ isAbsolute parent = isAbsolute text := by
  rw [parentPath?_eq] at h
  split at h
  · cases h
  · rename_i htext
    rw [List.isEmpty_iff] at htext
    obtain ⟨front, name, hne, hslash, heq, hfront⟩ := exists_last_name htext
    have hparts := parts_rdropWhile text.toList
    rw [String.ofList_toList] at hparts
    have hhead := head?_rdropWhile htext
    rw [← hparts, Bool.eq_iff_iff, isAbsolute_iff, isAbsolute_iff, ← hhead]
    rw [heq] at h ⊢
    rw [rdropWhile_append_name hslash hfront] at h
    rcases hfront with rfl | ⟨more, rfl⟩
    · obtain rfl := Option.some.inj h
      rw [List.nil_append, String.ofList_toList, parts_of_no_slash hne hslash]
      obtain ⟨c, rest, hname⟩ := List.exists_cons_of_ne_nil (mt String.toList_eq_nil_iff.mp hne)
      rw [hname, List.mem_cons, not_or] at hslash
      refine ⟨rfl, ?_⟩
      simpa [hname] using Ne.symm hslash.1
    · have hfolder : parts (.ofList ((more ++ ['/']).rdropWhile (· == '/'))) =
          parts (.ofList more) := by
        rw [List.rdropWhile_concat_pos _ _ _ rfl, parts_rdropWhile]
      have htext : String.ofList (more ++ ['/'] ++ name.toList) = .ofList more ++ "/" ++ name :=
        String.toList_injective (by simp)
      rw [htext, parts_append_slash, parts_of_no_slash hne hslash, List.dropLast_concat]
      dsimp only at h
      split at h
      · rename_i hall
        obtain rfl := Option.some.inj h
        simp only [Bool.and_eq_true, List.isEmpty_iff] at hall
        rw [hall.1] at hfolder
        have hmore := List.rdropWhile_eq_nil_iff.mp hall.1
        refine ⟨hfolder, ?_⟩
        cases more with
        | nil => simp
        | cons c more =>
            have hc := hmore c (by simp)
            simpa using hc
      · rename_i hsome
        obtain rfl := Option.some.inj h
        have hleft : (more ++ ['/']).rdropWhile (· == '/') ≠ [] := fun hnone =>
          hsome (by simp [hnone])
        refine ⟨hfolder, ?_⟩
        rw [String.toList_ofList, head?_rdropWhile hleft,
          List.head?_append_of_ne_nil (more ++ ['/']) (by simp)]

theorem staysInside_append_dot {depth : Nat} (h : StaysInside depth segments) :
    StaysInside depth (segments ++ ["."]) := by
  fun_induction StaysInside depth segments with
  | case1 => trivial
  | case2 depth segments ih => exact ih h
  | case3 => exact h
  | case4 depth segments ih => exact ih h
  | case5 depth segment segments hdot hdots hdots' ih =>
      rw [List.cons_append, StaysInside]
      · exact ih h
      · exact hdot
      · exact hdots
      · exact hdots'

theorem follow_along (hfree : host.IsLinkFree home) {depth : Nat} (hdepth : behind.length = depth)
    (hinside : StaysInside depth segments)
    (h : host.follow last links (home ++ behind) segments = .ok found) :
    found = along (home ++ behind) segments := by
  fun_induction StaysInside depth segments generalizing behind with
  | case1 =>
      rw [follow] at h
      cases h
      rfl
  | case2 depth segments ih =>
      rw [follow] at h
      split at h
      · cases h
      · exact ih hdepth hinside h
  | case3 => exact hinside.elim
  | case4 depth segments ih =>
      rw [follow] at h
      split at h
      · cases h
      · have hne : behind ≠ [] := by
          rintro rfl
          simp at hdepth
        rw [if_neg (by decide), if_pos rfl, List.dropLast_append_of_ne_nil hne] at h
        rw [along, List.dropLast_append_of_ne_nil hne]
        exact ih (by rw [List.length_dropLast, hdepth]; rfl) hinside h
  | case5 depth segment segments hdot hdots hdots' ih =>
      have hsegment : segment ≠ ".." := by
        rintro rfl
        cases depth with
        | zero => exact hdots rfl rfl
        | succ depth => exact hdots' depth rfl rfl
      have hplain := hfree (behind ++ [segment])
      have hlonger : (behind ++ [segment]).length = depth + 1 := by simp [hdepth]
      have hnext := ih hlonger hinside
      rw [← List.append_assoc] at hplain hnext
      rw [along]
      · rw [follow] at h
        split at h
        · cases h
        · split at h
          · cases h
          · dsimp only at h
            split at h
            · split at h
              · rename_i hempty
                rw [List.isEmpty_iff] at hempty
                subst hempty
                cases h
                rw [along]
              · cases h
            · rename_i target hlink
              exact absurd hlink (hplain target (by simp))
            · exact hnext h
      · exact hdot
      · exact hsegment

theorem Opens.exists_follow (hopens : host.Opens folder home)
    (hparts : parts path = parts folder ++ segments)
    (habsolute : isAbsolute path = isAbsolute folder) :
    ∃ fewer ahead, (ahead = segments ∨ ahead = segments ++ ["."]) ∧
      ∀ last, last = true ∨ ahead ≠ [] →
        host.follow last 40 (host.origin path) (names path) =
          host.follow last fewer home ahead := by
  obtain ⟨fewer, hfollow⟩ := hopens.leads.follow_behind hopens.isFolderAt
  have horigin : host.origin path = host.origin folder := by rw [origin, origin, habsolute]
  rw [names_eq, hparts, horigin]
  split
  · exact ⟨fewer, segments ++ ["."], .inr rfl, fun last hlast => by
      rw [List.append_assoc, hfollow last _ hlast]⟩
  · exact ⟨fewer, segments, .inl rfl, fun last hlast => hfollow last _ hlast⟩

theorem Opens.find_along (hopens : host.Opens folder home) (hfree : host.IsLinkFree home)
    (hparts : parts path = parts folder ++ segments)
    (habsolute : isAbsolute path = isAbsolute folder) (hinside : StaysInside 0 segments)
    (hlast : last = true ∨ segments ≠ []) (h : host.find path last = .ok found) :
    found = along home segments := by
  obtain ⟨fewer, ahead, hahead, hfollow⟩ := hopens.exists_follow hparts habsolute
  have hinside' : StaysInside 0 ahead ∧ along home ahead = along home segments := by
    rcases hahead with rfl | rfl
    · exact ⟨hinside, rfl⟩
    · exact ⟨staysInside_append_dot hinside, by rw [Path.along_append, Path.along_dot]⟩
  have hne : ahead = [] → segments = [] := by
    rcases hahead with rfl | rfl
    · exact id
    · simp
  have hpath : path ≠ "" := by
    rintro rfl
    simp [Host.find] at h
  rw [find_eq_of_ne_empty host last hpath] at h
  split at h
  · cases h
  · rw [hfollow last (hlast.imp_right (mt hne))] at h
    rw [← hinside'.2]
    rw [← List.append_nil home] at h ⊢
    exact follow_along hfree rfl hinside'.1 h

theorem Opens.createFolder_eq_error (hopens : host.Opens folder home)
    (hparts : parts path = parts folder) (habsolute : isAbsolute path = isAbsolute folder)
    (hne : path ≠ "") : ∃ fault, host.createFolder path = .error fault ∧ fault ≠ .noEntry := by
  have hleads : host.Leads 40 (host.origin path) (names path) home := by
    obtain ⟨fewer, ahead, hahead, hfollow⟩ :=
      hopens.exists_follow (hparts.trans (List.append_nil _).symm) habsolute
    rw [leads_iff_follow, hfollow true (.inl rfl)]
    rcases hahead with rfl | rfl
    · rw [follow]
    · rw [List.nil_append, follow_dot hopens.isFolderAt, follow]
  obtain ⟨location, hfollow, hlocation⟩ :=
    hleads.exists_follow_false (by simp [isFolderAt_iff.mp hopens.isFolderAt])
  obtain ⟨entry, hentry⟩ := Option.ne_none_iff_exists'.mp hlocation
  rw [Host.createFolder, find_eq_of_ne_empty host false hne]
  cases hrefusal : refusal? path with
  | some fault => exact ⟨fault, rfl, fun heq => refusal?_ne_noEntry (heq ▸ hrefusal)⟩
  | none => exact ⟨.fileExists, by simp only [hfollow, bind, Except.bind, hentry], by simp⟩

/-- Files and folders were put in some places, where there was nothing or a file. -/
structure Adds (host next : Host) (places : Location → Prop) : Prop where
  workingFolder : next.workingFolder = host.workingFolder
  get? : ∀ location, next.get? location = host.get? location ∨
    places location ∧
      (host.get? location = none ∨ ∃ bytes, host.get? location = some (.file bytes)) ∧
      (next.get? location = some .folder ∨ ∃ bytes, next.get? location = some (.file bytes))

namespace Adds

theorem refl (host : Host) (places : Location → Prop) : host.Adds host places :=
  ⟨rfl, fun _ => .inl rfl⟩

theorem trans (h : host.Adds other places) (h' : other.Adds next places) :
    host.Adds next places := by
  refine ⟨h'.workingFolder.trans h.workingFolder, fun location => ?_⟩
  rcases h.get? location with hsame | ⟨hplace, hbefore, hafter⟩
  · rw [← hsame]
    exact h'.get? location
  · rcases h'.get? location with hsame' | ⟨-, -, hafter'⟩
    · exact .inr ⟨hplace, hbefore, hsame' ▸ hafter⟩
    · exact .inr ⟨hplace, hbefore, hafter'⟩

theorem mono (h : host.Adds next places) (hwider : ∀ location, places location → wider location) :
    host.Adds next wider :=
  ⟨h.workingFolder, fun location =>
    (h.get? location).imp_right fun ⟨hplace, hchange⟩ => ⟨hwider location hplace, hchange⟩⟩

theorem sameBut (h : host.Adds next places) : host.SameBut places next :=
  ⟨h.workingFolder, fun location haway =>
    (h.get? location).resolve_right fun hchange => haway hchange.1⟩

theorem isFolderAt (h : host.Adds next places) (hfolder : host.isFolderAt location = true) :
    next.isFolderAt location = true := by
  rw [isFolderAt_iff] at hfolder ⊢
  rcases h.get? location with hsame | ⟨-, hbefore, -⟩
  · exact hsame.trans hfolder
  · simp [hfolder] at hbefore

theorem ne_link (h : host.Adds next places)
    (hplain : ∀ target, host.get? location ≠ some (.link target)) (target : String) :
    next.get? location ≠ some (.link target) := by
  rcases h.get? location with hsame | ⟨-, -, hfolder | ⟨bytes, hfile⟩⟩
  · rw [hsame]
    exact hplain target
  · simp [hfolder]
  · simp [hfile]

theorem isLinkFree (h : host.Adds next places) (hfree : host.IsLinkFree home) :
    next.IsLinkFree home :=
  fun rest target hrest => h.ne_link (fun target => hfree rest target hrest) target

theorem leads (h : host.Adds next places) {reached : Location} {ahead : List String}
    (hleads : host.Leads links reached ahead found) (hfolder : host.isFolderAt found = true) :
    next.Leads links reached ahead found := by
  induction hleads with
  | here => exact .here
  | dot hreached hrest ih => exact .dot (h.isFolderAt hreached) (ih hfolder)
  | dots hreached hrest ih => exact .dots (h.isFolderAt hreached) (ih hfolder)
  | free hreached hdot hdots hlong hnone => simp [Host.isFolderAt, hnone] at hfolder
  | link hreached hdot hdots hlong hlink hrest ih =>
      refine .link (h.isFolderAt hreached) hdot hdots hlong ?_ (ih hfolder)
      exact ((h.get? _).resolve_right fun hchange => by simp [hlink] at hchange).trans hlink
  | into hreached hdot hdots hlong hentry hplain hrest ih =>
      rcases h.get? _ with hsame | ⟨-, -, hafter | ⟨bytes, hafter⟩⟩
      · exact .into (h.isFolderAt hreached) hdot hdots hlong (hsame.trans hentry) hplain
          (ih hfolder)
      · exact .into (h.isFolderAt hreached) hdot hdots hlong hafter (by simp) (ih hfolder)
      · exact .into (h.isFolderAt hreached) hdot hdots hlong hafter (by simp) (ih hfolder)

theorem opens (h : host.Adds next places) (hopens : host.Opens folder home) :
    next.Opens folder home := by
  have horigin : next.origin folder = host.origin folder := by
    rw [origin, origin, h.workingFolder]
  exact ⟨h.isFolderAt hopens.isFolderAt, horigin ▸ h.leads hopens.leads hopens.isFolderAt⟩

end Adds

theorem adds_put (hne : location ≠ [])
    (hbefore : host.get? location = none ∨ ∃ bytes, host.get? location = some (.file bytes))
    {entry : Entry} (hentry : entry = .folder ∨ ∃ bytes, entry = .file bytes) :
    host.Adds (host.put location entry) (· = location) := by
  refine ⟨rfl, fun other => ?_⟩
  rw [get?_put host location other entry hne]
  split
  · rename_i hsame
    refine .inr ⟨hsame, hsame ▸ hbefore, ?_⟩
    rcases hentry with rfl | ⟨bytes, rfl⟩
    · exact .inl rfl
    · exact .inr ⟨bytes, rfl⟩
  · exact .inl rfl

/-- What some segments come past below a folder. -/
def Passed (home : Location) (segments : List String) (location : Location) : Prop :=
  ∃ front, front <+: segments ∧ location = along home front ∧
    ∃ name rest, location = home ++ name :: rest

theorem Passed.mono {front : List String} (h : Passed home front location)
    (hfront : front <+: segments) : Passed home segments location := by
  obtain ⟨shorter, hshorter, hlocation⟩ := h
  exact ⟨shorter, hshorter.trans hfront, hlocation⟩

theorem Passed.under {name : String} (hname : Ordinary name)
    (h : Passed home (name :: segments) location) (hinside : StaysInside 0 segments) :
    Under home [name] location := by
  obtain ⟨front, hfront, rfl, other, rest, hlocation⟩ := h
  cases front with
  | nil =>
      rw [along] at hlocation
      simp at hlocation
  | cons first front =>
      obtain ⟨rfl, hbehind⟩ := List.cons_prefix_cons.mp hfront
      rw [Path.along_cons hname, ← List.append_nil (home ++ [first])]
      exact ⟨first, List.mem_singleton_self first,
        Path.prefix_along rfl (hinside.of_prefix hbehind)⟩

theorem passed_along (hinside : StaysInside 0 segments) (hne : along home segments ≠ home) :
    Passed home segments (along home segments) := by
  have hbelow : home <+: along (home ++ []) segments := Path.prefix_along rfl hinside
  rw [List.append_nil] at hbelow
  obtain ⟨rest, hrest⟩ := hbelow
  cases rest with
  | nil => exact absurd (hrest.symm.trans (List.append_nil home)) hne
  | cons name rest => exact ⟨segments, List.prefix_rfl, rfl, name, rest, hrest.symm⟩

section

variable (hopens : host.Opens folder home) (hfree : host.IsLinkFree home)
  (hparts : parts path = parts folder ++ segments)
  (habsolute : isAbsolute path = isAbsolute folder) (hinside : StaysInside 0 segments)

include hopens hfree hparts habsolute hinside

theorem adds_createFolder (h : host.createFolder path = .ok next) :
    host.Adds next (Passed home segments) := by
  obtain ⟨location, hfind, hnone, rfl⟩ := createFolder_eq_ok h
  have hpath : path ≠ "" := by
    rintro rfl
    simp [find] at hfind
  have hne : segments ≠ [] := by
    rintro rfl
    obtain ⟨fault, hfault, -⟩ :=
      hopens.createFolder_eq_error (by simpa using hparts) habsolute hpath
    rw [hfault] at h
    cases h
  obtain rfl := hopens.find_along hfree hparts habsolute hinside (.inr hne) hfind
  have hhome : along home segments ≠ home := by
    intro hsame
    rw [hsame, isFolderAt_iff.mp hopens.isFolderAt] at hnone
    cases hnone
  obtain ⟨front, hfront, hlocation, name, rest, hrest⟩ := passed_along hinside hhome
  refine (adds_put (by simp [hrest]) (.inl hnone) (.inl rfl)).mono ?_
  rintro location rfl
  exact passed_along hinside hhome

theorem adds_write (h : host.write path bytes = .ok next) :
    host.Adds next (Passed home segments) := by
  obtain ⟨location, hfind, hfolder, rfl⟩ := write_eq_ok h
  obtain rfl := hopens.find_along hfree hparts habsolute hinside (.inl rfl) hfind
  have hhome : along home segments ≠ home := by
    intro hsame
    rw [hsame] at hfolder
    exact hfolder (isFolderAt_iff.mp hopens.isFolderAt)
  obtain ⟨front, hfront, hlocation, name, rest, hrest⟩ := passed_along hinside hhome
  have hbefore : host.get? (along home segments) = none ∨
      ∃ bytes, host.get? (along home segments) = some (.file bytes) := by
    cases hentry : host.get? (along home segments) with
    | none => exact .inl rfl
    | some entry =>
        cases entry with
        | file bytes => exact .inr ⟨bytes, rfl⟩
        | folder => exact absurd hentry hfolder
        | link target => exact absurd (hrest ▸ hentry) (hfree (name :: rest) target (by simp))
  refine (adds_put (by simp [hrest]) hbefore (.inr ⟨bytes, rfl⟩)).mono ?_
  rintro location rfl
  exact passed_along hinside hhome

theorem adds_createFoldersFrom (fuel : Nat) :
    host.Adds (host.createFoldersFrom fuel path).1 (Passed home segments) := by
  induction fuel generalizing path segments with
  | zero =>
      rw [createFoldersFrom.eq_def]
      dsimp only
      split
      · exact .refl host _
      · split
        · rename_i hmade
          exact adds_createFolder hopens hfree hparts habsolute hinside hmade
        · exact .refl host _
        · exact .refl host _
  | succ fuel ih =>
      rw [createFoldersFrom.eq_def]
      dsimp only
      split
      · exact .refl host _
      · rename_i hempty
        split
        · rename_i hmade
          exact adds_createFolder hopens hfree hparts habsolute hinside hmade
        · rename_i hmissing
          have hne : segments ≠ [] := by
            rintro rfl
            obtain ⟨fault, hfault, hother⟩ :=
              hopens.createFolder_eq_error (by simpa using hparts) habsolute (by simpa using hempty)
            exact hother (Except.error.inj (hfault.symm.trans hmissing))
          split
          · rename_i parent hless hparent
            cases hless
            obtain ⟨hfront, hlead⟩ := parts_parentPath? hparent
            rw [hparts, List.dropLast_append_of_ne_nil hne] at hfront
            have hprefix := List.dropLast_prefix segments
            have hmade := (ih hfront (hlead.trans habsolute) (hinside.of_prefix hprefix)).mono
              fun location hlocation => hlocation.mono hprefix
            split
            · rename_i hfault
              rwa [hfault] at hmade
            · rename_i between hbetween
              rw [hbetween] at hmade
              split
              · rename_i hlast
                exact hmade.trans (adds_createFolder (hmade.opens hopens)
                  (hmade.isLinkFree hfree) hparts habsolute hinside hlast)
              · exact hmade
          · exact .refl host _
        · exact .refl host _

end

end Conformance.Host
