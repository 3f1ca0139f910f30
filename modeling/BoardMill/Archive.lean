import BoardMill.Text.Utf8

/-! # Archives

An archive is a list of members with names. Not every content can be had: it may be
damaged, or packed in a way that is not known.
-/

namespace BoardMill

/-- What can be had of the content of a member. -/
inductive MemberContent where
  | bytes (bytes : List UInt8)
  /-- The packed bytes break off, or are not those that were packed. -/
  | damaged
  /-- The content is packed or locked in a way that cannot be undone. -/
  | sealed (reason : String)
  deriving Repr

/-- A named part of an archive. -/
structure Member where
  name : String
  content : MemberContent
  deriving Repr

/-- The members of an archive in their order. -/
structure Archive where
  members : List Member
  deriving Repr

/-- The text of a content, if it is whole and is text. -/
def MemberContent.text? : MemberContent → Option (List Char)
  | bytes content => Utf8.decode? content
  | damaged => none
  | sealed _ => none

/-- Directories are told by the last character of their name. -/
def Member.isDirectory (m : Member) : Bool :=
  match m.name.toList.getLast? with
  | some c => c == '/' || c == '\\'
  | none => false

namespace Archive

/-- Puts a member behind the others, or in the place of one of the same name. -/
def insertMember (m : Member) : List Member → List Member
  | [] => [m]
  | first :: rest =>
    if first.name = m.name then m :: rest else first :: insertMember m rest

/-- The archive of some members. Of those of one name the last one counts, in the place
of the first. -/
def ofMembers (members : List Member) : Archive :=
  ⟨members.foldl (fun found m => insertMember m found) []⟩

end Archive

end BoardMill
