import Mastermind.Platform.Path

/-!
# Uploaded mod archives

The first half of `installUploadedModsToQuarantine` of `games/7dtd/adapter.go`: which entry lists of
a ZIP archive it accepts, which directories of the archive are the roots of mods, the folder that a
root is installed as, and where in that folder an entry goes. An entry is what the ZIP header
declares, and the content is what its data expands to. Sizes are natural numbers: none that is
added up is above 2 GiB.
-/

namespace Mastermind.Agent

/-- An entry of an archive. `dirMode` and `symlink` are bits of its mode, and `size` its declared
size. -/
structure ZipEntry where
  name : String
  dirMode : Bool
  symlink : Bool
  size : ℕ
  content : List UInt8

/-- Why an installation fails, each error named for its message. -/
inductive InstallError where
  | entryCount
  | unsafeEntry (name : String)
  | symlink (name : String)
  | entryTooLarge (name : String)
  | archiveTooLarge
  | noModInfo
  | nestedModInfo (root other : String)
  | noSafeFolder (root : String)
  | sameFolder (folder : String)
  | alreadyExists (folder : String)
  | unsafePath (name : String)
  | duplicatePath (relative : String)
  | incompleteEntry (name : String)
  | missingModInfo (folder : String)
  | normalize (folder : String)
  | place (folder : String)
  | system

namespace ModArchive

/-- `maxModArchiveFiles`. -/
def maxModArchiveFiles : ℕ := 10000

/-- `maxModArchiveExpandedBytes`. -/
def maxModArchiveExpandedBytes : ℕ := 2 * 1024 * 1024 * 1024

/-- `strings.HasPrefix`. -/
def hasPrefix (s start : String) : Bool := start.toList.isPrefixOf s.toList

/-- `strings.HasSuffix`. -/
def hasSuffix (s ending : String) : Bool := ending.toList.isSuffixOf s.toList

/-- `strings.TrimPrefix`. -/
def trimPrefix (s start : String) : String :=
  if hasPrefix s start then String.ofList (s.toList.drop start.length) else s

/-- `strings.TrimSuffix`. -/
def trimSuffix (s ending : String) : String :=
  if hasSuffix s ending then String.ofList (s.toList.take (s.length - ending.length)) else s

/-- A character folds to a lower-case ASCII one. Beside the ASCII letters, the long s folds to `s`
and the Kelvin sign to `k`. -/
def foldsTo (c lower : Char) : Bool :=
  c.toLower = lower || (c.toNat = 0x17F && lower = 's') || (c.toNat = 0x212A && lower = 'k')

/-- `strings.EqualFold` with a lower-case ASCII text. -/
def equalFold (s lower : String) : Bool :=
  s.length = lower.length && (s.toList.zip lower.toList).all fun x => foldsTo x.1 x.2

/-- `filepath.Ext`. -/
def ext (path : String) : String :=
  let last := (path.toList.reverse.takeWhile (· ≠ '/')).reverse
  if last.contains '.' then
    String.ofList ('.' :: (last.reverse.takeWhile (· ≠ '.')).reverse)
  else ""

/-- `FileInfo().IsDir()`. -/
def isDir (entry : ZipEntry) : Bool := entry.dirMode || hasSuffix entry.name "/"

/-- The name matches `^[A-Za-z]:`. -/
def hasDrive (name : String) : Bool :=
  match name.toList with
  | c :: ':' :: _ => c.isAlpha
  | _ => false

/-- The name of an entry is unsafe. -/
def isUnsafe (entry : ZipEntry) (name clean : String) : Bool :=
  name = "" || entry.name.toList.contains '\\' || Path.isAbs name || clean = "." ||
    clean = ".." || hasPrefix clean "../" || clean ≠ name || hasDrive clean

/-- The loop over the entries: the clean names, and the directories with a `ModInfo.xml`. -/
def checkEntries : List ZipEntry → ℕ → List (ZipEntry × String) → List String →
    Except InstallError (List (ZipEntry × String) × List String)
  | [], _, cleanNames, rootSet => .ok (cleanNames, rootSet)
  | entry :: rest, expandedBytes, cleanNames, rootSet =>
    let name := trimSuffix entry.name "/"
    if name = "" && isDir entry then checkEntries rest expandedBytes cleanNames rootSet
    else
      let clean := Path.clean name
      if isUnsafe entry name clean then .error (.unsafeEntry entry.name)
      else if entry.symlink then .error (.symlink entry.name)
      else if maxModArchiveExpandedBytes < entry.size then .error (.entryTooLarge entry.name)
      else if maxModArchiveExpandedBytes < expandedBytes + entry.size then .error .archiveTooLarge
      else
        checkEntries rest (expandedBytes + entry.size) (cleanNames ++ [(entry, clean)])
          (if !isDir entry && equalFold (Path.base clean) "modinfo.xml" then
            rootSet ++ [Path.dir clean] else rootSet)

/-- The first pair of a root and a later one that it contains. -/
def nested : List String → Option (String × String)
  | [] => none
  | root :: rest =>
    match rest.find? fun other => root = "." || hasPrefix other (root ++ "/") with
    | some other => some (root, other)
    | none => nested rest

/-- The validation of the entries: their clean names, and the roots of the mods in order. -/
def validate (entries : List ZipEntry) :
    Except InstallError (List (ZipEntry × String) × List String) := do
  if entries.length = 0 || maxModArchiveFiles < entries.length then throw .entryCount
  let (cleanNames, rootSet) ← checkEntries entries 0 [] []
  if rootSet = [] then throw .noModInfo
  let roots := rootSet.dedup.insertionSort fun a b => a ≤ b
  match nested roots with
  | some (root, other) => throw (.nestedModInfo root other)
  | none => return (cleanNames, roots)

/-- The character may stand in the name of a mod folder. -/
def isFolderChar (c : Char) : Bool := c.isAlphanum || c = '.' || c = '_' || c = '-'

/-- The text with each run of other characters replaced by one `_`. -/
def sanitize : Bool → List Char → List Char
  | _, [] => []
  | replaced, c :: cs =>
    if isFolderChar c then c :: sanitize false cs
    else if replaced then sanitize true cs
    else '_' :: sanitize true cs

/-- The character is trimmed from the ends of a folder's name. -/
def isTrimmed (c : Char) : Bool := c = '.' || c = '_' || c = '-'

/-- `validateModFolder` accepts the name. -/
def isModFolder (folder : String) : Bool :=
  !(folder = "" || folder = "." || folder = ".." || Path.base folder ≠ folder ||
    folder.toList.any fun c => c = '/' || c = '\\')

/-- The name of the archive without its extension. -/
def archiveFolder (originalName : String) : String :=
  trimSuffix (Path.base originalName) (ext originalName)

/-- The folder that a root is installed as. -/
def deriveFolder (originalName root : String) : String :=
  let folder := if root = "." || equalFold (Path.base root) "mods" then archiveFolder originalName
    else Path.base root
  let trimmed := (((sanitize false folder.toList).dropWhile isTrimmed).reverse.dropWhile
    isTrimmed).reverse
  String.ofList (trimmed.take 100)

/-- The entry with the clean name is the root or below it. -/
def belongs (clean root : String) : Bool :=
  root = "." || hasPrefix clean (root ++ "/") || clean = root

/-- Where an entry goes in the folder of a root: nowhere if it is the root. Every spelling of
`ModInfo.xml` becomes that one. -/
def relativePath (clean root : String) : Option String :=
  let relative := if root = "." then clean else trimPrefix (trimPrefix clean root) "/"
  if relative = "" then none
  else if equalFold (Path.base relative) "modinfo.xml" then
    some (Path.join [Path.dir relative, "ModInfo.xml"])
  else some relative

/-- The root that takes an entry, and where in its folder: the first root to which the entry
belongs decides. -/
def placement (roots : List String) (clean : String) : Option (String × String) :=
  (roots.find? (belongs clean)).bind fun root => (relativePath clean root).map fun r => (root, r)

end ModArchive

end Mastermind.Agent
