import Conformance.Settings

namespace Conformance

/-! The arguments of the command: options, one of the actions, and the options
of the action behind it. -/

inductive Action where
  | list (excludedOnly : Bool) (part : Option String)
  | fetch
  | helpers
  | unrecognized
deriving DecidableEq, Repr

structure Options where
  config : Option String := none
  folder : Option String := none
  archive : Option String := none
  archiveRoot : Option String := none
  commit : Option String := none
  subDirectories : List String := []
deriving DecidableEq, Repr

structure Arguments where
  options : Options
  action : Action
deriving DecidableEq, Repr

namespace Arguments

inductive Form where
  | long (name : String) (attached : Option String)
  | letter (c : Char) (attached : Option String)
  | separator
  | plain
deriving DecidableEq, Repr

def longForm (text : List Char) : Form :=
  let name := String.ofList (text.takeWhile (· != '='))
  match text.dropWhile (· != '=') with
  | [] => .long name none
  | _ :: value => .long name (some (.ofList value))

def attachedTo : List Char → Option String
  | [] => none
  | '=' :: value => some (.ofList value)
  | value => some (.ofList value)

def formOf (argument : String) : Form :=
  match argument.toList with
  | ['-', '-'] => .separator
  | '-' :: '-' :: text => longForm text
  | '-' :: c :: text => .letter c (attachedTo text)
  | _ => .plain

/-- Only an argument that looks like no option is the value of one. -/
def isValue (argument : String) : Bool :=
  formOf argument == .plain

def takeValue (attached : Option String) (rest : List String) :
    Option (String × List String) :=
  match attached, rest with
  | some value, rest => some (value, rest)
  | none, value :: rest => if isValue value then some (value, rest) else none
  | none, [] => none

theorem length_takeValue_le {attached : Option String} {rest left : List String} {value : String}
    (h : takeValue attached rest = some (value, left)) : left.length ≤ rest.length := by
  unfold takeValue at h
  split at h
  · cases h
    exact Nat.le_refl _
  · split at h
    · cases h
      exact Nat.le_succ _
    · simp at h
  · simp at h

inductive Slot where
  | config
  | folder
  | archive
  | archiveRoot
  | commit
  | subDirectory
deriving DecidableEq, Repr

def slotOf? : Form → Option (Slot × Option String)
  | .long "config" attached => some (.config, attached)
  | .long "test-dir" attached => some (.folder, attached)
  | .long "archive" attached => some (.archive, attached)
  | .long "archive-root" attached => some (.archiveRoot, attached)
  | .long "commit" attached => some (.commit, attached)
  | .long "subdir" attached => some (.subDirectory, attached)
  | .letter 'c' attached => some (.config, attached)
  | .letter 't' attached => some (.folder, attached)
  | .letter 'd' attached => some (.subDirectory, attached)
  | _ => none

def once (given : Option String) (value : String) : Option (Option String) :=
  match given with
  | none => some (some value)
  | some _ => none

def oncePath (given : Option String) (value : String) : Option (Option String) :=
  if value.isEmpty then none else once given value

def fill (options : Options) (slot : Slot) (value : String) : Option Options :=
  match slot with
  | .config => (oncePath options.config value).map fun config => { options with config }
  | .folder => (oncePath options.folder value).map fun folder => { options with folder }
  | .archive => (oncePath options.archive value).map fun archive => { options with archive }
  | .archiveRoot =>
    (once options.archiveRoot value).map fun archiveRoot => { options with archiveRoot }
  | .commit => (once options.commit value).map fun commit => { options with commit }
  | .subDirectory => some { options with subDirectories := options.subDirectories ++ [value] }

def partOf? : Form → Option (Option String)
  | .long "filter" attached => some attached
  | .letter 'f' attached => some attached
  | _ => none

def listing (excludedOnly : Bool) (part : Option String) (arguments : List String) :
    Option Action :=
  match arguments with
  | [] => some (.list excludedOnly part)
  | argument :: rest =>
    let form := formOf argument
    if form = .separator then
      if rest.isEmpty then some (.list excludedOnly part) else none
    else if form = .long "excluded" none then
      if excludedOnly then none else listing true part rest
    else
      match partOf? form with
      | none => none
      | some attached =>
        match _h : takeValue attached rest with
        | none => none
        | some (value, left) =>
          if part.isSome then none else listing excludedOnly (some value) left
termination_by arguments.length
decreasing_by
  · exact Nat.lt_succ_self _
  · exact Nat.lt_succ_of_le (length_takeValue_le _h)

def bare (action : Action) : List String → Option Action
  | [] => some action
  | ["--"] => some action
  | _ => none

def actionOf? : String → List String → Option Action
  | "list", rest => listing false none rest
  | "fetch", rest => bare .fetch rest
  | "harness", rest => bare .helpers rest
  | "unrecognized", rest => bare .unrecognized rest
  | _, _ => none

def readFrom (options : Options) (arguments : List String) : Option Arguments :=
  match arguments with
  | [] => none
  | argument :: rest =>
    let form := formOf argument
    if form = .plain then (actionOf? argument rest).map fun action => ⟨options, action⟩
    else
      match slotOf? form with
      | none => none
      | some (slot, attached) =>
        match _h : takeValue attached rest with
        | none => none
        | some (value, left) =>
          match fill options slot value with
          | none => none
          | some options => readFrom options left
termination_by arguments.length
decreasing_by exact Nat.lt_succ_of_le (length_takeValue_le _h)

def read? (arguments : List String) : Option Arguments :=
  readFrom {} arguments

end Arguments

end Conformance
