import KeyGloss.Disk.Basic
import KeyGloss.Json.Reader
import KeyGloss.KeyMap
import KeyGloss.Text.Quoted

/-!
# Messages

A directory of messages holds one JSON file for each locale, named after it. The texts in a
file are its messages; the key of a message is the way to it, with the names of members and
the positions of elements joined by dots. A list of texts is one message. A file that cannot
be loaded is left out with a warning, and the others are loaded all the same. A file whose name is
no text stands for no locale and is passed over. A directory that cannot be listed has no messages:
loading it fails as a whole.
-/

namespace KeyGloss

/-- Why a message file cannot be loaded. -/
inductive MessageFault where
  | unreadable (path : Path) (fault : DiskFault)
  | malformed (path : Path) (error : JsonError)

namespace MessageFault

/-- The wording of a fault, with its cause. -/
def message : MessageFault → Text
  | .unreadable path fault =>
    "Failed to read JSON file: " ++ Text.quoted path ++ ": " ++ fault.message
  | .malformed path error =>
    "Failed to parse JSON file: " ++ Text.quoted path ++ ": " ++ error.message

end MessageFault

/-- Why no messages can be loaded from a directory. -/
inductive MessagesFault where
  | missing (dir : Path)
  | notADirectory (dir : Path)
  | unlistable (fault : DiskFault)
  deriving DecidableEq, Repr

namespace MessagesFault

/-- The wording of a fault. -/
def message : MessagesFault → Text
  | .missing dir =>
    "Messages directory '" ++ dir
      ++ "' does not exist.\nHint: Check your .skiverrc.json 'messagesRoot' setting."
  | .notADirectory dir => "'" ++ dir ++ "' is not a directory."
  | .unlistable fault => fault.message

end MessagesFault

/-- The messages of a directory. -/
structure Messages where
  keys : KeyMap := KeyMap.empty
  /-- The locales whose files were loaded. -/
  locales : List Text := []
  /-- The files that were not, each with the reason. -/
  warnings : List (Path × Text) := []

namespace Messages

/-- The locale of a message file: its name without the extension. -/
def localeOf? (path : Path) : Option Text := path.fileStem?

/-- The key of a part of the value under `key`. -/
def childKey (key part : Text) : Text := if key.isEmpty then part else key ++ '.' :: part

/-- The text of a value that is one. -/
def string? : Json → Option Text
  | .string t => some t
  | _ => none

/-- The texts of a list that holds nothing else. -/
def strings? (elements : List Json) : Option (List Text) := elements.mapM string?

mutual

/-- The messages in a value that stands under `key`. A text without a key is none. -/
def flatten (key : Text) : Json → List (Text × Text)
  | .object members => flattenMembers key members
  | .string t => if key.isEmpty then [] else [(key, t)]
  | .array elements =>
    match elements, strings? elements, key.isEmpty with
    | [], _, _ => []
    | _, some texts, false => [(key, Text.join ", " texts)]
    | _, _, _ => flattenElements key 0 elements
  | _ => []

/-- The messages in the members of an object. -/
def flattenMembers (key : Text) : List (Text × Json) → List (Text × Text)
  | [] => []
  | (name, value) :: rest => flatten (childKey key name) value ++ flattenMembers key rest

/-- The messages in the elements of a list from a position on. -/
def flattenElements (key : Text) (position : Nat) : List Json → List (Text × Text)
  | [] => []
  | value :: rest =>
    flatten (childKey key (Text.ofNat position)) value ++ flattenElements key (position + 1) rest

end

/-- Adds the messages of a value for a locale. -/
def insertAll (keys : KeyMap) (locale : Text) (value : Json) : KeyMap :=
  (flatten [] value).foldl (fun m (key, t) => m.insert key locale t) keys

/-- Adds the messages of a file for a locale. -/
def loadFile (d : Disk) (path : Path) (locale : Text) (keys : KeyMap) :
    Except MessageFault KeyMap :=
  match d.readText path with
  | .error fault => .error (.unreadable path fault)
  | .ok content =>
    match Json.parse content with
    | .error e => .error (.malformed path e)
    | .ok value => .ok (insertAll keys locale value)

/-- Whether an entry comes before or with another one, byte by byte. -/
def entryLe (a b : EntryName) : Bool := a.bytes ≤ b.bytes

/-- The extension of message files. -/
def extension : Text := "json"

/-- Whether an entry is a message file by its name. -/
def isMessageFile : EntryName → Bool
  | .text name => (Path.splitName name).2 = some extension
  | .stray name => (Text.bytes ('.' :: extension)).isSuffixOf name.bytes

/-- The path and the locale of a message file. A name that is no text has none: the extension is a
text, so what stands before it is not. -/
def located? (dir : Path) : EntryName → Option (Path × Text)
  | .text name => (localeOf? (dir.join name)).map fun locale => (dir.join name, locale)
  | .stray _ => none

/-- Adds the messages of an entry, or a warning about it. An entry without a locale is passed
over. -/
def addEntry (d : Disk) (dir : Path) (m : Messages) (entry : EntryName) : Messages :=
  match located? dir entry with
  | none => m
  | some (path, locale) =>
    match loadFile d path locale m.keys with
    | .ok keys => { m with keys, locales := m.locales ++ [locale] }
    | .error fault => { m with warnings := m.warnings ++ [(path, fault.message)] }

/-- The message files among some entries, in the order of their names. -/
def messageFiles (entries : List EntryName) : List EntryName :=
  (entries.filter isMessageFile).mergeSort entryLe

/-- Loads the messages of a directory. -/
def load (d : Disk) (dir : Path) : Except MessagesFault Messages :=
  if !d.contains dir then .error (.missing dir)
  else if !d.isDirectory dir then .error (.notADirectory dir)
  else
    match d.names dir with
    | .error fault => .error (.unlistable fault)
    | .ok entries => .ok ((messageFiles entries).foldl (addEntry d dir) {})

end Messages

end KeyGloss
