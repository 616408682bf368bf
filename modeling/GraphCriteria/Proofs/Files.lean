import GraphCriteria.CommandLine.Files
import GraphCriteria.Proofs.Passes

/-!
# What writing a file changes

Writing a file makes the directories on the way to it and then the file.  Directories are made where
nothing stood; no other file is touched, and the file is touched last of all.  When the file cannot be
written, none has changed.

Main definitions:

- Definition `placeOf`: the place that a path names.
- Definition `FileTree.Grows`: all that differs between two trees is directories on the way of a path.
- Inductive type `FileTree.Written`: how writing a file can end.

Main results:

- Theorem `FileTree.walk_eq_ok_iff`: a walk goes to the place that is named, through directories alone.
- Theorem `FileTree.makeDirectories_grows`: making directories makes nothing else.
- Theorem `FileTree.readFile_put`: what is written is found by the path that was written to.
- Theorem `FileTree.placeToWrite_eq_ok_iff`: where a file can be written.
- Theorem `FileTree.writeFile_written`: a file is written as a whole or not at all.
- Theorem `FileTree.writeFile_ok`: a file is written where nothing stands in the way.
-/

namespace GraphCriteria.CommandLine

/-- The place that a path names. -/
def placeOf (path : String) : Place :=
  (components path).foldl Place.follow .start

/-- A place that some of the components name, from the first on. -/
def OnTheWay (path : List Component) (place : Place) : Prop :=
  ∃ way, way <+: path ∧ way.foldl Place.follow .start = place

/-- Only a name has a text. -/
theorem Component.eq_name {component : Component} {text : String}
    (h : component.name? = some text) : component = .name text := by
  cases component with
  | name => exact congrArg Component.name (Option.some.inj h)
  | root | here | parent => cases h

/-! ## Sizes of paths -/

/-- The length in bytes does not depend on how a text is held. -/
theorem utf8Length_toList (path : String) : Text.utf8Length path.toList = path.utf8ByteSize := by
  have h : ∀ cs : List Char, (String.ofList cs).utf8ByteSize = Text.utf8Length cs := by
    intro cs
    induction cs with
    | nil => rfl
    | cons c cs ih =>
        rw [String.ofList_cons, String.utf8ByteSize_append, String.utf8ByteSize_singleton, ih]
        rfl
  rw [← h, String.ofList_toList]

/-- The number of bytes of parts with a byte after each of them. -/
def spaced (parts : List (List Char)) : Nat :=
  parts.foldr (fun part size => Text.utf8Length part + 1 + size) 0

/-- Splitting at slashes loses nothing but the slashes, one for each part but the first. -/
theorem spaced_splitSlashes (cs : List Char) :
    spaced (splitSlashes cs) = Text.utf8Length cs + 1 := by
  induction cs with
  | nil => rfl
  | cons c cs ih =>
      have hcons : Text.utf8Length (c :: cs) = c.utf8Size + Text.utf8Length cs := rfl
      rw [hcons, splitSlashes]
      split
      · rename_i hnil
        rw [hnil] at ih
        cases ih
      · rename_i first rest hparts
        rw [hparts] at ih
        have hfirst : spaced (first :: rest) = Text.utf8Length first + 1 + spaced rest := rfl
        split
        · rename_i hslash
          have hsize : c.utf8Size = 1 := by rw [hslash]; rfl
          have hspaced : spaced ([] :: first :: rest) = 1 + spaced (first :: rest) := rfl
          omega
        · have hspaced : spaced ((c :: first) :: rest) =
              c.utf8Size + Text.utf8Length first + 1 + spaced rest := rfl
          omega

/-- Each component ends within the parts. -/
theorem le_of_mem_componentsFrom {isFirst : Bool} {start : Nat} {parts : List (List Char)}
    {component : Component × Nat} (h : component ∈ componentsFrom isFirst start parts) :
    component.2 + 1 ≤ start + spaced parts := by
  induction parts generalizing isFirst start with
  | nil => cases h
  | cons part parts ih =>
      have hspaced : spaced (part :: parts) = Text.utf8Length part + 1 + spaced parts := rfl
      rw [componentsFrom] at h
      rcases List.mem_append.1 h with h | h
      · obtain ⟨found, -, rfl⟩ := Option.map_eq_some_iff.1 (Option.mem_toList.1 h)
        dsimp only
        omega
      · have hrest := ih h
        omega

/-- Each component ends within the path. -/
theorem le_of_mem_measuredComponents {path : String} {component : Component × Nat}
    (h : component ∈ measuredComponents path) : component.2 ≤ path.utf8ByteSize := by
  have hsize := spaced_splitSlashes path.toList
  rw [utf8Length_toList] at hsize
  unfold measuredComponents at h
  split at h
  · rename_i part parts hparts
    have hspaced : spaced ([] :: part :: parts) = 1 + spaced (part :: parts) := rfl
    have hpart : spaced (part :: parts) = Text.utf8Length part + 1 + spaced parts := rfl
    rw [hparts] at hsize
    rcases List.mem_cons.1 h with rfl | h
    · dsimp only
      omega
    · have hend := le_of_mem_componentsFrom h
      omega
  · have hend := le_of_mem_componentsFrom h
    omega

/-- What comes before the last component is no longer than the whole path. -/
theorem parentSize_le (path : String) : parentSize path ≤ path.utf8ByteSize := by
  unfold parentSize
  split
  · rename_i last component size more hreverse
    have hmem : (component, size) ∈ measuredComponents path := by
      rw [← List.mem_reverse, hreverse]
      simp
    exact le_of_mem_measuredComponents hmem
  · exact Nat.zero_le _

namespace FileTree

variable {tree before after : FileTree} {place target : Place} {path way : List Component}

/-! ## Nodes -/

/-- What has been put at a place is found there, unless the place is a start. -/
theorem node?_put_self (node : Node) (h : place.names ≠ []) :
    (tree.put place node).node? place = some node := by
  have hfirst : ((tree.nodes.filter (·.1 ≠ place)).find? (·.1 = place)) = none := by
    simp
  rw [node?, if_neg h, put, List.find?_append, hfirst]
  simp

/-- Nothing else is changed by that. -/
theorem node?_put_of_ne (node : Node) (h : target ≠ place) :
    (tree.put place node).node? target = tree.node? target := by
  have hkept : ∀ nodes : List (Place × Node),
      (nodes.filter (·.1 ≠ place)).find? (·.1 = target) = nodes.find? (·.1 = target) := by
    intro nodes
    rw [List.find?_filter]
    congr 1
    funext entry
    by_cases hentry : entry.1 = target <;> simp [hentry, h]
  have hlast : [(place, node)].find? (·.1 = target) = none := by
    simp [Ne.symm h]
  rw [node?, put, List.find?_append, hkept, hlast, Option.or_none]
  rfl

/-- The starts are directories, so a place that is none has a name. -/
theorem names_ne_nil (h : tree.node? place ≠ some .directory) : place.names ≠ [] := by
  intro hnil
  exact h (by simp [node?, hnil])

/-! ## Devices -/

/-- No device stands below the working directory. -/
def Plain (tree : FileTree) : Prop :=
  ∀ names, tree.node? ⟨.above 0, names⟩ ≠ some .nullDevice

/-- A tree stays plain if no device is put into it. -/
theorem Plain.put (h : tree.Plain) {node : Node} (hnode : node ≠ .nullDevice) :
    (tree.put place node).Plain := by
  intro names
  by_cases hplace : (⟨.above 0, names⟩ : Place) = place
  · by_cases hnames : names = []
    · simp [node?, hnames]
    · rw [← hplace, node?_put_self node hnames]
      simpa using hnode
  · rw [node?_put_of_ne node hplace]
    exact h names

/-- A tree stays plain when a file is added to it at the outset. -/
theorem Plain.addFile (h : tree.Plain) (path contents : String) :
    (tree.addFile path contents).Plain := by
  have hways : ∀ (ways : List (List String)) (tree : FileTree), tree.Plain →
      (ways.foldl (fun tree way => tree.put ⟨.above 0, way⟩ .directory) tree).Plain := by
    intro ways
    induction ways with
    | nil => exact fun _ h => h
    | cons way ways ih => exact fun tree h => ih _ (h.put (by simp))
  exact (hways _ tree h).put (by simp)

/-- Files alone are no devices. -/
theorem plain_ofFiles (files : List (String × String)) : (ofFiles files).Plain := by
  have hbare : bare.Plain := by
    intro names
    by_cases hnames : names = [] <;> simp [node?, bare, hnames]
  have hfiles : ∀ (files : List (String × String)) (tree : FileTree), tree.Plain →
      (files.foldl (fun tree file => tree.addFile file.1 file.2) tree).Plain := by
    intro files
    induction files with
    | nil => exact fun _ h => h
    | cons file files ih => exact fun tree h => ih _ (h.addFile file.1 file.2)
  exact hfiles files bare hbare

/-! ## Walks -/

/-- A place is accepted as a directory exactly if it is one. -/
theorem directoryAt_eq_ok_iff :
    tree.directoryAt place = .ok () ↔ tree.node? place = some .directory := by
  unfold directoryAt
  split <;> simp_all

/-- A walk takes its first step from a directory, by a name that is not too long, and goes on from
there. -/
theorem walk_cons_eq_ok_iff {first : Component} :
    tree.walk place (first :: path) = .ok target ↔ tree.node? place = some .directory ∧
      isOverlong first = false ∧ tree.walk (place.follow first) path = .ok target := by
  rw [walk, ← directoryAt_eq_ok_iff]
  split
  · rename_i h
    simp [h]
  · rename_i h
    cases isOverlong first <;> simp [h]

/-- A walk goes to the place that is named, through directories alone. -/
theorem walk_eq_ok_iff :
    tree.walk place path = .ok target ↔ path.foldl Place.follow place = target ∧
      (∀ component ∈ path, isOverlong component = false) ∧
      ∀ way component rest, path = way ++ component :: rest →
        tree.node? (way.foldl Place.follow place) = some .directory := by
  induction path generalizing place with
  | nil => simp [walk]
  | cons first rest ih =>
      rw [walk_cons_eq_ok_iff, ih]
      constructor
      · rintro ⟨hdirectory, hfirst, htarget, hrest, hpassed⟩
        refine ⟨htarget, by simpa using ⟨hfirst, hrest⟩, ?_⟩
        intro way component more heq
        cases way with
        | nil => exact hdirectory
        | cons c way =>
            obtain ⟨rfl, hmore⟩ := List.cons.inj heq
            exact hpassed way component more hmore
      · rintro ⟨htarget, hall, hpassed⟩
        refine ⟨hpassed [] first rest rfl, hall _ List.mem_cons_self, htarget,
          fun component hmem => hall _ (List.mem_cons_of_mem _ hmem), ?_⟩
        intro way component more heq
        exact hpassed (first :: way) component more (by rw [heq]; rfl)

/-- A walk is made up of shorter ones. -/
theorem walk_append {more : List Component} (h : tree.walk place (path ++ more) = .ok target) :
    ∃ middle, tree.walk place path = .ok middle ∧ tree.walk middle more = .ok target := by
  induction path generalizing place with
  | nil => exact ⟨place, rfl, h⟩
  | cons first rest ih =>
      obtain ⟨hplace, hfirst, hrest⟩ := walk_cons_eq_ok_iff.1 h
      obtain ⟨middle, hmiddle, hmore⟩ := ih hrest
      exact ⟨middle, walk_cons_eq_ok_iff.2 ⟨hplace, hfirst, hmiddle⟩, hmore⟩

/-- All directories above a place stand. -/
def Based (tree : FileTree) (place : Place) : Prop :=
  ∀ names, names <+: place.names → names ≠ place.names →
    tree.node? ⟨place.anchor, names⟩ = some .directory

/-- What is no name leads back, or to an anchor. -/
theorem follow_of_name?_eq_none (place : Place) {component : Component}
    (h : component.name? = none) :
    (place.follow component).names = [] ∨ (place.follow component).anchor = place.anchor ∧
      (place.follow component).names <+: place.names := by
  unfold Place.follow
  split
  · exact .inl rfl
  · exact .inr ⟨rfl, List.prefix_rfl⟩
  · exact .inl rfl
  · exact .inr ⟨rfl, List.dropLast_prefix _⟩
  · cases h

/-- All places on the way to a directory are directories. -/
theorem Based.directory_of_prefix (h : tree.Based place)
    (hplace : tree.node? place = some .directory) {names : List String}
    (hinitial : names <+: place.names) : tree.node? ⟨place.anchor, names⟩ = some .directory := by
  by_cases hnames : names = place.names
  · rw [hnames]
    exact hplace
  · exact h names hinitial hnames

/-- A step without a name leads to a directory: to the same one, to the one above or to a start. -/
theorem Based.directory_of_follow (h : tree.Based place)
    (hplace : tree.node? place = some .directory) {component : Component}
    (hcomponent : component.name? = none) :
    tree.node? (place.follow component) = some .directory := by
  rcases follow_of_name?_eq_none place hcomponent with hnil | ⟨hanchor, hinitial⟩
  · simp [node?, hnil]
  · have hdirectory := h.directory_of_prefix hplace hinitial
    rwa [← hanchor] at hdirectory

/-- A step from a directory leads to a place with directories on the way to it. -/
theorem Based.follow (h : tree.Based place) (hplace : tree.node? place = some .directory)
    (component : Component) : tree.Based (place.follow component) := by
  intro names hinitial hne
  cases hcomponent : component.name? with
  | none =>
      rcases follow_of_name?_eq_none place hcomponent with hnil | ⟨hanchor, hback⟩
      · rw [hnil] at hinitial hne
        exact absurd (List.prefix_nil.1 hinitial) hne
      · rw [hanchor]
        exact h.directory_of_prefix hplace (hinitial.trans hback)
  | some text =>
      obtain rfl := Component.eq_name hcomponent
      have hfollow : place.follow (.name text) = ⟨place.anchor, place.names ++ [text]⟩ := rfl
      rw [hfollow] at hinitial hne ⊢
      rcases List.prefix_concat_iff.1 hinitial with heq | hback
      · exact absurd heq hne
      · exact h.directory_of_prefix hplace hback

/-- So does a whole walk. -/
theorem Based.of_walk (hbased : tree.Based place) (h : tree.walk place path = .ok target) :
    tree.Based target := by
  induction path generalizing place with
  | nil =>
      cases h
      exact hbased
  | cons first rest ih =>
      obtain ⟨hplace, -, hrest⟩ := walk_cons_eq_ok_iff.1 h
      exact ih (hbased.follow hplace first) hrest

/-- There is nothing on the way to the start. -/
theorem based_start (tree : FileTree) : tree.Based .start := by
  intro names hinitial hne
  exact absurd (List.prefix_nil.1 hinitial) hne

/-- A path that does not end in a name leads to a directory. -/
theorem directory_of_nameless (hnameless : ∀ text earlier, path.reverse ≠ .name text :: earlier)
    (h : tree.walk .start path = .ok target) : tree.node? target = some .directory := by
  cases hpath : path.reverse with
  | nil =>
      rw [List.reverse_eq_nil_iff.1 hpath] at h
      cases h
      rfl
  | cons last earlier =>
      rw [List.reverse_eq_cons_iff.1 hpath] at h
      obtain ⟨parent, hparent, hend⟩ := walk_append h
      obtain ⟨hdirectory, -, hend⟩ := walk_cons_eq_ok_iff.1 hend
      cases hend
      cases hlast : last.name? with
      | none => exact ((based_start tree).of_walk hparent).directory_of_follow hdirectory hlast
      | some text =>
          obtain rfl := Component.eq_name hlast
          exact absurd hpath (hnameless text earlier)

/-! ## Making directories -/

/-- A place is as it was, or there is a directory now that some components name, where nothing stood. -/
def Keeps (path : List Component) (before after : FileTree) (place : Place) : Prop :=
  after.node? place = before.node? place ∨
    before.node? place = none ∧ after.node? place = some .directory ∧ OnTheWay path place

/-- All that differs between two trees is directories that some components name. -/
def Grows (path : List Component) (before after : FileTree) : Prop :=
  ∀ place, Keeps path before after place

namespace Grows

/-- A tree has grown out of itself. -/
theorem refl (path : List Component) (tree : FileTree) : Grows path tree tree :=
  fun _ => .inl rfl

/-- What has grown out of a tree in two steps has grown out of it. -/
theorem trans {middle : FileTree} (h : Grows path before middle) (h' : Grows path middle after) :
    Grows path before after := by
  intro place
  rcases h place with hsame | ⟨hnone, hdirectory, hway⟩
  · rcases h' place with hsame' | ⟨hnone, hdirectory, hway⟩
    · exact .inl (hsame'.trans hsame)
    · exact .inr ⟨hsame ▸ hnone, hdirectory, hway⟩
  · rcases h' place with hsame' | ⟨hnone', _, _⟩
    · exact .inr ⟨hnone, hsame'.trans hdirectory, hway⟩
    · rw [hdirectory] at hnone'
      cases hnone'

/-- What has grown along a way has grown along any way that begins with it. -/
theorem mono (h : Grows way before after) (hway : way <+: path) : Grows path before after := by
  intro place
  rcases h place with hsame | ⟨hnone, hdirectory, more, hmore, hplace⟩
  · exact .inl hsame
  · exact .inr ⟨hnone, hdirectory, more, hmore.trans hway, hplace⟩

/-- No device is made. -/
theorem plain (h : Grows path before after) (hplain : before.Plain) : after.Plain := by
  intro names
  rcases h ⟨.above 0, names⟩ with hsame | ⟨_, hdirectory, _⟩
  · rw [hsame]
    exact hplain names
  · simp [hdirectory]

end Grows

/-- Making one directory adds no more than that directory. -/
theorem makeDirectory_grows (h : before.makeDirectory path = .ok after) :
    Grows path before after := by
  obtain ⟨made, hwalk, h⟩ := exists_ok_of_bind h
  split at h
  · cases h
  · rename_i hnone
    cases h
    intro place
    by_cases hplace : place = made
    · subst hplace
      have hdirectory : before.node? place ≠ some .directory := by simp [hnone]
      exact .inr ⟨hnone, node?_put_self .directory (names_ne_nil hdirectory), path, List.prefix_rfl,
        (walk_eq_ok_iff.1 hwalk).1⟩
    · exact .inl (node?_put_of_ne .directory hplace)

/-- Neither does making it if it is missing, whether that succeeds or not. -/
theorem ensureDirectory_grows (tree : FileTree) (path : List Component) :
    Grows path tree (tree.ensureDirectory path).1 := by
  unfold ensureDirectory
  split
  · rename_i h
    exact makeDirectory_grows h
  · exact .refl path tree

/-- Making directories makes nothing else. -/
theorem makeDirectories_grows (tree : FileTree) (path : List Component) :
    Grows path.reverse tree (tree.makeDirectories path).1 := by
  induction path with
  | nil => exact .refl _ tree
  | cons last earlier ih =>
      have hearlier : earlier.reverse <+: (last :: earlier).reverse := by
        rw [List.reverse_cons]
        exact List.prefix_append _ _
      unfold makeDirectories
      dsimp only
      split
      · split
        · rename_i heq
          rw [heq] at ih
          exact (ih.mono hearlier).trans (ensureDirectory_grows _ _)
        · rename_i heq
          rw [heq] at ih
          exact ih.mono hearlier
      · exact ensureDirectory_grows tree _

/-! ## Writing files -/

/-- The empty path leads to the start, which is a directory. -/
theorem ne_empty_of_walk {path : String} (h : tree.walk .start (components path) = .ok place)
    (hdirectory : tree.node? place ≠ some .directory) : path ≠ "" := by
  rintro rfl
  cases h
  exact hdirectory rfl

/-- A file can be written where a path can be walked to its end, which is no directory. -/
theorem placeToWrite_eq_ok_iff {path : String} :
    tree.placeToWrite path = .ok place ↔ path.utf8ByteSize < pathLimit ∧ pathEnd path = .name ∧
      tree.walk .start (components path) = .ok place ∧ tree.node? place ≠ some .directory := by
  constructor
  · intro h
    unfold placeToWrite at h
    simp only [bind, Except.bind, pure, Except.pure] at h
    split at h
    · cases h
    split at h
    · cases h
    rename_i hsize
    split at h
    · -- a name before a slash
      repeat (split at h <;> try cases h)
    rename_i ending hother
    split at h
    · cases h
    rename_i reached hwalk
    split at h
    · cases h
    · cases h
    · cases h
    rename_i hdirectory hhere hhere'
    cases h
    refine ⟨Nat.lt_of_not_le hsize, ?_, hwalk, hdirectory⟩
    cases hending : pathEnd path with
    | name => rfl
    | here =>
        cases hnode : tree.node? place with
        | none => exact (hhere hnode hending).elim
        | some node => exact (hhere' node hnode hending).elim
    | slash =>
        have hnameless : ∀ text earlier, (components path).reverse ≠ .name text :: earlier :=
          fun text earlier heq => hother text earlier heq hending
        exact (hdirectory (directory_of_nameless hnameless hwalk)).elim
  · rintro ⟨hsize, hending, hwalk, hdirectory⟩
    unfold placeToWrite
    simp only [bind, Except.bind, pure, Except.pure, ne_empty_of_walk hwalk hdirectory,
      Nat.not_le.2 hsize, if_false, hending, hwalk]
    split
    · rename_i hslash
      cases hslash
    · split
      · rename_i hnode
        exact absurd hnode hdirectory
      · rename_i hhere
        cases hhere
      · rename_i hhere
        cases hhere
      · rfl

/-- What is written is found by the path that was written to. -/
theorem readFile_put {path : String} (h : tree.placeToWrite path = .ok place) (contents : String) :
    (tree.put place (.file contents)).readFile path = .ok contents := by
  obtain ⟨hsize, hending, hwalk, hdirectory⟩ := placeToWrite_eq_ok_iff.1 h
  have hnode : (tree.put place (.file contents)).node? place = some (.file contents) :=
    node?_put_self _ (names_ne_nil hdirectory)
  have hwalk' : (tree.put place (.file contents)).walk .start (components path) = .ok place := by
    obtain ⟨htarget, hall, hpassed⟩ := walk_eq_ok_iff.1 hwalk
    refine walk_eq_ok_iff.2 ⟨htarget, hall, fun way component rest heq => ?_⟩
    have hpass := hpassed way component rest heq
    -- The walk passes directories, and the file is none.
    have hne : way.foldl Place.follow .start ≠ place := by
      rintro rfl
      exact hdirectory hpass
    rw [node?_put_of_ne _ hne]
    exact hpass
  have hresolve : (tree.put place (.file contents)).resolve path = .ok (.file contents) := by
    simp [resolve, bind, Except.bind, pure, Except.pure, ne_empty_of_walk hwalk hdirectory,
      Nat.not_le.2 hsize, hwalk', hnode, hending]
  rw [readFile, hresolve]
  rfl

/-- How writing a file can end: the file stands at its place, or no file has changed. -/
inductive Written (path contents : String) (before after : FileTree) :
    Except FileError Unit → Prop where
  | ok (hothers : ∀ place, place ≠ placeOf path →
        Keeps (components path).dropLast before after place)
      (hplace : after.node? (placeOf path) = some (.file contents))
      (hread : after.readFile path = .ok contents) : Written path contents before after (.ok ())
  | error (e : FileError) (h : Grows (components path).dropLast before after) :
      Written path contents before after (.error e)

/-- A file is written as a whole or not at all, and no other file changes. -/
theorem writeFile_written {path : String} (hplain : tree.Plain)
    (hbelow : (placeOf path).anchor = .above 0) (contents : String) :
    Written path contents tree (tree.writeFile path contents).1 (tree.writeFile path contents).2 := by
  have hgrows : Grows (components path).dropLast tree
      (tree.makeDirectories (components path).reverse.tail).1 := by
    have h := makeDirectories_grows tree (components path).reverse.tail
    rwa [List.tail_reverse, List.reverse_reverse, ← List.tail_reverse] at h
  unfold writeFile
  split
  · exact .error _ (.refl _ tree)
  · split
    · rename_i made e heq
      rw [heq] at hgrows
      exact .error e hgrows
    · rename_i made heq
      rw [heq] at hgrows
      split
      · rename_i e _
        exact .error e hgrows
      · rename_i place hplace
        obtain ⟨-, -, hwalk, hdirectory⟩ := placeToWrite_eq_ok_iff.1 hplace
        obtain rfl : placeOf path = place := (walk_eq_ok_iff.1 hwalk).1
        have hdevice : made.node? (placeOf path) ≠ some .nullDevice := by
          have h := hgrows.plain hplain (placeOf path).names
          rwa [← hbelow] at h
        have hwritten : made.writeAt (placeOf path) contents =
            made.put (placeOf path) (.file contents) := if_neg hdevice
        rw [hwritten]
        refine .ok (fun place hne => ?_) (node?_put_self _ (names_ne_nil hdirectory))
          (readFile_put hplace contents)
        unfold Keeps
        rw [node?_put_of_ne _ hne]
        exact hgrows place

/-- Directories that stand are not made again. -/
theorem makeDirectories_of_walk (h : tree.walk .start path = .ok target)
    (hdirectory : tree.node? target = some .directory) :
    tree.makeDirectories path.reverse = (tree, .ok ()) := by
  have hmake : tree.makeDirectory path = .error .alreadyExists := by
    simp [makeDirectory, bind, Except.bind, h, hdirectory]
  have hensure : tree.ensureDirectory path = (tree, .ok ()) := by
    simp [ensureDirectory, hmake, isDirectory, h, hdirectory]
  cases hpath : path.reverse with
  | nil => rfl
  | cons last earlier =>
      obtain rfl : path = (last :: earlier).reverse := by rw [← hpath, List.reverse_reverse]
      unfold makeDirectories
      dsimp only
      rw [hmake]
      exact hensure

/-- A file is written where nothing stands in the way. -/
theorem writeFile_ok {path : String} (hplace : tree.placeToWrite path = .ok place)
    (contents : String) : (tree.writeFile path contents).2 = .ok () := by
  obtain ⟨hsize, -, hwalk, hdirectory⟩ := placeToWrite_eq_ok_iff.1 hplace
  have hparent : ¬pathLimit ≤ parentSize path :=
    Nat.not_le.2 (Nat.lt_of_le_of_lt (parentSize_le path) hsize)
  have hmade : tree.makeDirectories (components path).reverse.tail = (tree, .ok ()) := by
    rw [List.tail_reverse]
    cases hlast : (components path).getLast? with
    | none =>
        rw [List.getLast?_eq_none_iff.1 hlast]
        rfl
    | some last =>
        obtain ⟨earlier, heq⟩ := List.getLast?_eq_some_iff.1 hlast
        rw [heq] at hwalk ⊢
        obtain ⟨parent, hparents, hlast⟩ := walk_append hwalk
        rw [List.dropLast_concat]
        exact makeDirectories_of_walk hparents (walk_cons_eq_ok_iff.1 hlast).1
  rw [writeFile, if_neg hparent, hmade]
  dsimp only
  rw [hplace]

end FileTree

end GraphCriteria.CommandLine
