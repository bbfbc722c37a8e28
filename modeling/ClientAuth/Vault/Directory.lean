import ClientAuth.Vault.Store

/-!
# A store of files

Each key has a file of its own, named by the hexadecimal text of the key. An entry is first written to a temporary file
beside it, which is then renamed, so that an entry is there in full or not at all. The operations are rows of single
actions on a directory.
-/

namespace ClientAuth

/-- The files of a directory by name, at most one for each name. -/
structure Directory where
  files : List (String × Bytes)
  deriving DecidableEq, Repr

/-- One action on a directory that changes it. -/
inductive FileAction where
  /-- Writes a file in the place of any former one. -/
  | write (name : String) (content : Bytes)
  /-- Gives a file another name, in the place of any former one of that name. -/
  | rename (old new : String)
  /-- Deletes a file. -/
  | delete (name : String)
  deriving DecidableEq, Repr

namespace Directory

/-- No file. -/
def empty : Directory := ⟨[]⟩

/-- The content of a file. -/
def get? (d : Directory) (name : String) : Option Bytes := d.files.lookup name

/-- Without a file. -/
def erase (d : Directory) (name : String) : Directory := ⟨d.files.filter (·.1 != name)⟩

/-- With a file in the place of any former one of its name. -/
def insert (d : Directory) (name : String) (content : Bytes) : Directory := ⟨(name, content) :: (d.erase name).files⟩

theorem get?_erase (d : Directory) (name n : String) : (d.erase name).get? n = if n = name then none else d.get? n :=
  lookup_filter_bne d.files name n

theorem get?_insert (d : Directory) (name : String) (content : Bytes) (n : String) :
    (d.insert name content).get? n = if n = name then some content else d.get? n := by
  by_cases h : n = name
  · simp [insert, get?, h]
  · have he := d.get?_erase name n
    have hb : (n == name) = false := by simp [h]
    simp only [get?, h, if_false] at he
    simp [insert, get?, List.lookup_cons, h, hb, he]

/-- The names of all files, in order. -/
def names (d : Directory) : List String := (d.files.map (·.1)).mergeSort (fun a b => !decide (b < a))

/-- The greatest length of a file name in octets. -/
def maxNameLength : Nat := 255

/-- A failure of the operating system; its wording is not fixed. -/
def failure (kind : String) : IoError := ⟨kind, none⟩

/-- Refuses names that are too long. -/
def checkName (name : String) : Except IoError Unit :=
  if name.utf8ByteSize ≤ maxNameLength then .ok () else .error (failure "InvalidFilename")

/-- The content of a file that must be there. -/
def read (d : Directory) (name : String) : Except IoError Bytes := do
  checkName name
  match d.get? name with
  | some content => return content
  | none => throw (failure "NotFound")

/-- Performs an action. -/
def perform (d : Directory) : FileAction → Except IoError Directory
  | .write name content => do
    checkName name
    return d.insert name content
  | .rename old new => do
    checkName old
    checkName new
    match d.get? old with
    | some content => return (d.erase old).insert new content
    | none => throw (failure "NotFound")
  | .delete name => do
    checkName name
    match d.get? name with
    | some _ => return d.erase name
    | none => throw (failure "NotFound")

/-- Performs actions one after another, up to the first that fails. -/
def performAll (d : Directory) : List FileAction → Except IoError Unit × Directory
  | [] => (.ok (), d)
  | a :: rest =>
    match d.perform a with
    | .ok d => performAll d rest
    | .error e => (.error e, d)

end Directory

/-- A directory that is used as a store, and how many temporary names have been used. -/
structure FileStore where
  directory : Directory
  temporaries : Nat
  deriving DecidableEq, Repr

namespace FileStore

/-- A store without entries. -/
def empty : FileStore := ⟨.empty, 0⟩

/-- The name of the file of a key. -/
def entryName (key : String) : String := Hex.encode (Utf8.encode key) ++ ".entry"

/-- The name of a temporary file for a key; the suffix has sixteen hexadecimal digits. -/
def temporaryName (key : String) (suffix : UInt64) : String :=
  let octets := (List.range 8).map fun i => UInt8.ofNat (suffix.toNat >>> (8 * (7 - i)))
  Hex.encode (Utf8.encode key) ++ "." ++ Hex.encode octets ++ ".tmp"

/-- The actions that save an entry. -/
def saveActions (key blob : String) (suffix : UInt64) : List FileAction :=
  [.write (temporaryName key suffix) (Utf8.encode blob), .rename (temporaryName key suffix) (entryName key)]

/-- Empty keys are refused before anything is done. -/
def checkKey (key : String) : Except VaultError Unit :=
  if key.isEmpty then .error (.misuse "Storage keys cannot be empty") else .ok ()

/-- The text of a file that was read for an entry. A file that is not there is no entry. -/
def entryOf : Except IoError Bytes → Except VaultError (Option String)
  | .ok content =>
    match Utf8.decode content with
    | .ok blob => .ok (some blob)
    | .error _ => .error (.io (Directory.failure "InvalidData"))
  | .error e => if e.kind = "NotFound" then .ok none else .error (.io e)

/-- Loads an entry. -/
def load (s : FileStore) (key : String) : Except VaultError (Option String) := do
  checkKey key
  entryOf (s.directory.read (entryName key))

/-- Saves an entry. Temporary names count from one. -/
def save (s : FileStore) (key blob : String) : Except VaultError Unit × FileStore :=
  match checkKey key with
  | .error e => (.error e, s)
  | .ok () =>
    let temporaries := s.temporaries + 1
    let (r, directory) := s.directory.performAll (saveActions key blob (UInt64.ofNat temporaries))
    (r.mapError .io, { directory, temporaries })

/-- Removes an entry. -/
def remove (s : FileStore) (key : String) : Except VaultError Unit × FileStore :=
  match checkKey key with
  | .error e => (.error e, s)
  | .ok () =>
    match s.directory.perform (.delete (entryName key)) with
    | .ok d => (.ok (), { s with directory := d })
    | .error e => (if e.kind = "NotFound" then .ok () else .error (.io e), s)

/-- What a store of files offers. -/
def backing : Backing FileStore := ⟨load, save, remove⟩

end FileStore

end ClientAuth
