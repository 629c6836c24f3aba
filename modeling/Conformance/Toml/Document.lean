import Conformance.Toml.Reader

namespace Conformance.Toml

structure Document where
  root : Entries
  current : List String

namespace Document

def empty : Document := ⟨[], []⟩

def change (document : Document) (path : List String) (change : Entries.Change) :
    Option Document :=
  (Entries.under false change path .headed document.root).map fun found =>
    { document with root := found.2 }

abbrev Read := Option (Document × List Char)

def entry (document : Document) (text : List Char) : Read := do
  match ← keys? text.length text with
  | ((path, key), '=' :: rest) =>
    let (value, rest) ← value? (2 * rest.length + 2) 0 (skipSpaces rest)
    let document ← document.change document.current (Entries.addUnder path key value)
    return (document, rest)
  | _ => none

def header (document : Document) (text : List Char) : Read := do
  match ← keys? text.length text with
  | ((path, key), ']' :: rest) =>
    let document ← document.change path (Entries.openTable key)
    return ({ document with current := path ++ [key] }, rest)
  | _ => none

def listHeader (document : Document) (text : List Char) : Read := do
  match ← keys? text.length text with
  | ((path, key), ']' :: ']' :: rest) =>
    let document ← document.change path (Entries.openListed key)
    return ({ document with current := path ++ [key] }, rest)
  | _ => none

def line (document : Document) (text : List Char) : Read :=
  match text with
  | '[' :: '[' :: rest => document.listHeader rest
  | '[' :: rest => document.header rest
  | _ => document.entry text

def lines : Nat → Document → List Char → Option Document
  | 0, _, _ => none
  | fuel + 1, document, text =>
    match skipLayout false text with
    | none => none
    | some [] => some document
    | some text => do
      let (document, rest) ← document.line text
      lines fuel document (← endLine false rest)

def withoutMark : List Char → List Char
  | '\ufeff' :: text => text
  | text => text

def read? (text : String) : Option Entries :=
  let text := withoutMark text.toList
  (lines (text.length + 1) empty text).map (·.root)

end Document

end Conformance.Toml
