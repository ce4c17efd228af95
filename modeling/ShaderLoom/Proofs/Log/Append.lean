/-
  ShaderLoom.Proofs.Log.Append — what appending does to a tree of files.

  Where a text leads as a path does not depend on the tree, only whether it leads there
  (`eq_ofText_of_leads`). An append either puts its text behind what the file held and touches no
  other file (`append_ok`), or fails by a fault of files and changes no file (`append_error`). It
  makes the folders it needs, so where one append went through every later one does
  (`writable_of_append`), and where one failed every later one fails the same way (`append_again`).
-/

import ShaderLoom.Log.Files
import ShaderLoom.Proofs.Outcome

namespace ShaderLoom

open Outcome

/-- The faults that reading and writing files end with. -/
def Fault.isOfFiles : Fault → Bool
  | .unwritable | .nullCharacter | .noSuchFile | .isDirectory | .fileInTheWay | .notADirectory | .nameTooLong => true
  | _ => false

/-- A result that is no fault of files. -/
def ClearOfFiles {α : Type} (result : Except Fault α) : Prop :=
  ∀ fault, result = .error fault → fault.isOfFiles = false

namespace Path

/-- Where names lead from a folder, whatever is there. -/
def walk (here : Path) : List String → Path
  | [] => here
  | name :: rest =>
    if staysPut name then walk here rest
    else if name = ".." then walk here.dropLast rest
    else walk (here ++ [name]) rest

/-- The path of the file that a text names. -/
def ofText (path : String) : Path := walk [] (names path).dropLast ++ [(names path).getLast?.getD ""]

end Path

namespace Files

variable {files files' : Files} {here folder p q : Path} {names : List String} {path text : String} {fault : Fault}

/-- What a file holds; one that is not there holds nothing. -/
def textAt (p : Path) (files : Files) : String := (files.read? p).getD ""

/-! ## Finding a file -/

theorem eq_walk_of_follow (h : files.follow here names = .ok folder) : folder = Path.walk here names := by
  fun_induction follow files here names with
  | case1 =>
    cases h
    rfl
  | case2 here name rest hstay ih => rw [ih h, Path.walk, if_pos hstay]
  | case3 here rest hstay ih => rw [ih h, Path.walk, if_neg hstay, if_pos rfl]
  | case6 here name rest hstay hup _ _ _ ih => rw [ih h, Path.walk, if_neg hstay, if_neg hup]
  | case4 | case5 | case7 => cases h

theorem follow_error (h : files.follow here names = .error fault) : fault.isOfFiles = true := by
  fun_induction follow files here names with
  | case1 => cases h
  | case2 _ _ _ _ ih | case3 _ _ _ ih | case6 _ _ _ _ _ _ _ _ ih => exact ih h
  | case4 | case5 | case7 =>
    cases h
    rfl

theorem locate_eq (path : String) (files : Files) : files.locate path =
    if Text.hasNull path then .error .nullCharacter
    else if path = "" then .error .noSuchFile
    else files.follow [] (Path.names path).dropLast >>= fun folder =>
      let name := (Path.names path).getLast?.getD ""
      if Path.staysPut name || name == ".." || files.isFolder (folder ++ [name]) then .error .isDirectory
      else if Path.isTooLong name then .error .nameTooLong
      else .ok (folder ++ [name]) := by
  unfold locate
  dsimp only
  simp only [ite_throw_bind]
  rfl

/-- What a text must be and find to lead to a file: folders down to the last name, which is a name
of its own and not a folder's. -/
structure Leads (files : Files) (path : String) (p : Path) : Prop where
  noNull : Text.hasNull path = false
  nonempty : path ≠ ""
  folder : ∃ folder, files.follow [] (Path.names path).dropLast = .ok folder ∧
    p = folder ++ [(Path.names path).getLast?.getD ""]
  ownName : (Path.staysPut ((Path.names path).getLast?.getD "") || (Path.names path).getLast?.getD "" == "..") = false
  notFolder : files.isFolder p = false
  short : Path.isTooLong ((Path.names path).getLast?.getD "") = false

theorem locate_ok_iff : files.locate path = .ok p ↔ Leads files path p := by
  rw [locate_eq]
  constructor
  · intro h
    split at h
    · cases h
    split at h
    · cases h
    rename_i hnull hempty
    obtain ⟨folder, hfolder, h⟩ := bind_eq_ok.mp h
    dsimp only at h
    split at h
    · cases h
    split at h
    · cases h
    rename_i hname hlong
    cases h
    obtain ⟨hown, hnot⟩ := Bool.or_eq_false_iff.mp (Bool.not_eq_true _ ▸ hname)
    exact {
      noNull := Bool.not_eq_true _ ▸ hnull
      nonempty := hempty
      folder := ⟨folder, hfolder, rfl⟩
      ownName := hown
      notFolder := hnot
      short := Bool.not_eq_true _ ▸ hlong }
  · rintro ⟨hnull, hempty, ⟨folder, hfolder, rfl⟩, hown, hnot, hshort⟩
    rw [if_neg (Bool.not_eq_true _ ▸ hnull), if_neg hempty, hfolder]
    show (if _ then _ else _) = _
    rw [hown, hnot, hshort]
    rfl

theorem locate_error (h : files.locate path = .error fault) : fault.isOfFiles = true := by
  rw [locate_eq] at h
  split at h
  · cases h
    rfl
  split at h
  · cases h
    rfl
  cases hfolder : files.follow [] (Path.names path).dropLast with
  | error fault' =>
    rw [hfolder] at h
    cases h
    exact follow_error hfolder
  | ok folder =>
    rw [hfolder] at h
    change (if _ then _ else _) = _ at h
    split at h
    · cases h
      rfl
    split at h
    · cases h
      rfl
    · cases h

theorem eq_ofText_of_leads (h : Leads files path p) : p = Path.ofText path := by
  obtain ⟨folder, hfolder, rfl⟩ := h.folder
  rw [Path.ofText, eq_walk_of_follow hfolder]

theorem locateNew_eq (path : String) (files : Files) : files.locateNew path =
    if path = Path.withoutSlashes path then files.locate path
    else if Text.hasNull path then .error .nullCharacter
    else files.follow [] (Path.names (Path.withoutSlashes path)).dropLast >>= fun _ => .error .isDirectory := by
  unfold locateNew
  dsimp only
  simp only [ite_throw_bind]
  rfl

theorem locateNew_ok_iff : files.locateNew path = .ok p ↔ path = Path.withoutSlashes path ∧ Leads files path p := by
  rw [locateNew_eq]
  split
  · rename_i hbare
    rw [locate_ok_iff]
    exact ⟨fun h => ⟨hbare, h⟩, And.right⟩
  · rename_i hslash
    refine ⟨fun h => ?_, fun h => absurd h.1 hslash⟩
    split at h
    · cases h
    · obtain ⟨_, _, h⟩ := bind_eq_ok.mp h
      cases h

theorem locateNew_error (h : files.locateNew path = .error fault) : fault.isOfFiles = true := by
  rw [locateNew_eq] at h
  split at h
  · exact locate_error h
  split at h
  · cases h
    rfl
  cases hfolder : files.follow [] (Path.names (Path.withoutSlashes path)).dropLast with
  | error fault' =>
    rw [hfolder] at h
    cases h
    exact follow_error hfolder
  | ok folder =>
    rw [hfolder] at h
    cases h
    rfl

/-! ## Writing -/

theorem textAt_put_self (p : Path) (text : String) (contents : List (Path × String)) (folders : List Path) :
    textAt p ⟨put p text contents, folders⟩ = textAt p ⟨contents, folders⟩ ++ text := by
  induction contents with
  | nil => simp [put, textAt, read?]
  | cons e rest ih =>
    obtain ⟨q, old⟩ := e
    by_cases hq : q = p
    · simp [put, textAt, read?, hq]
    · simpa [put, textAt, read?, hq] using ih

theorem read?_put_of_ne (h : q ≠ p) (text : String) (contents : List (Path × String)) (folders : List Path) :
    read? q ⟨put p text contents, folders⟩ = read? q ⟨contents, folders⟩ := by
  induction contents with
  | nil => simp [put, read?, h.symm]
  | cons e rest ih =>
    obtain ⟨k, old⟩ := e
    by_cases hk : k = p
    · simp [put, read?, hk, h.symm]
    · by_cases hkq : k = q
      · subst hkq
        simp [put, read?, h]
      · simpa [put, read?, hk, hkq] using ih

theorem makeFolders_contents (here : Path) (names : List String) (files : Files) :
    (makeFolders here names files).2.contents = files.contents := by
  fun_induction makeFolders here names files with
  | case1 | case4 | case5 | case6 => rfl
  | case2 _ _ _ _ _ ih | case3 _ _ _ _ ih | case7 _ _ _ _ _ _ _ _ _ _ _ ih | case8 _ _ _ _ _ _ _ _ _ _ _ ih => exact ih

theorem makeFolders_error (h : makeFolders here names files = (.error fault, files')) : fault.isOfFiles = true := by
  fun_induction makeFolders here names files with
  | case1 => cases h
  | case2 _ _ _ _ _ ih | case3 _ _ _ _ ih | case7 _ _ _ _ _ _ _ _ _ _ _ ih | case8 _ _ _ _ _ _ _ _ _ _ _ ih => exact ih h
  | case4 | case5 =>
    cases h
    rfl
  | case6 =>
    cases h
    split <;> rfl

theorem makeFolders_folders (here : Path) (names : List String) (files : Files) :
    files.folders ⊆ (makeFolders here names files).2.folders := by
  fun_induction makeFolders here names files with
  | case1 | case4 | case5 | case6 => exact List.Subset.refl _
  | case2 _ _ _ _ _ ih | case3 _ _ _ _ ih => exact ih
  | case7 =>
    rename_i ih
    exact ih
  | case8 =>
    rename_i ih
    exact fun p hp => ih (List.mem_cons_of_mem _ hp)

theorem isFolder_mono {p : Path} {made : Files} (h : files.folders ⊆ made.folders) (hp : files.isFolder p = true) :
    made.isFolder p = true := by
  rw [isFolder, Bool.or_eq_true, List.contains_iff_mem] at hp ⊢
  exact hp.imp_right fun hp => h hp

theorem extend_ok_iff : files.extend path text = .ok files' ↔
    ∃ p, path = Path.withoutSlashes path ∧ Leads files path p ∧
      files' = { files with contents := put p text files.contents } := by
  rw [extend, bind_eq_ok]
  simp only [locateNew_ok_iff]
  constructor
  · rintro ⟨p, ⟨hbare, hp⟩, h⟩
    cases h
    exact ⟨p, hbare, hp, rfl⟩
  · rintro ⟨p, hbare, hp, rfl⟩
    exact ⟨p, ⟨hbare, hp⟩, rfl⟩

theorem extend_error (h : files.extend path text = .error fault) : fault.isOfFiles = true := by
  rw [extend] at h
  cases hp : files.locateNew path with
  | error fault' =>
    rw [hp] at h
    cases h
    exact locateNew_error hp
  | ok p =>
    rw [hp] at h
    cases h

/-- An append that goes through makes its folders and puts the text behind the file's. -/
theorem append_eq_ok (h : files.append path text = (.ok (), files')) :
    ∃ folders p, makeFolders [] (Path.names path).dropLast files = (.ok (), ⟨files.contents, folders⟩) ∧
      path = Path.withoutSlashes path ∧ Leads ⟨files.contents, folders⟩ path p ∧
        files' = ⟨put p text files.contents, folders⟩ := by
  rw [append] at h
  have hcontents := makeFolders_contents [] (Path.names path).dropLast files
  rcases hmade : makeFolders [] (Path.names path).dropLast files with ⟨_ | ⟨⟨⟩⟩, made⟩
  · rw [hmade] at h
    cases h
  · rw [hmade] at h hcontents
    obtain ⟨contents, folders⟩ := made
    cases hcontents
    cases hext : extend path text ⟨files.contents, folders⟩ with
    | error fault =>
      simp only [hext] at h
      cases h
    | ok files'' =>
      simp only [hext] at h
      cases h
      obtain ⟨p, hbare, hp, rfl⟩ := extend_ok_iff.mp hext
      exact ⟨folders, p, rfl, hbare, hp, rfl⟩

theorem append_ok (h : files.append path text = (.ok (), files')) :
    files'.textAt (Path.ofText path) = files.textAt (Path.ofText path) ++ text ∧
      ∀ q ≠ Path.ofText path, files'.read? q = files.read? q := by
  obtain ⟨folders, p, -, -, hp, rfl⟩ := append_eq_ok h
  rw [← eq_ofText_of_leads hp]
  exact ⟨textAt_put_self p text files.contents folders, fun q hq => read?_put_of_ne hq text files.contents folders⟩

theorem append_error (h : files.append path text = (.error fault, files')) : fault.isOfFiles = true := by
  rw [append] at h
  rcases hmade : makeFolders [] (Path.names path).dropLast files with ⟨_ | ⟨⟨⟩⟩, made⟩
  · rw [hmade] at h
    cases h
    exact makeFolders_error hmade
  · rw [hmade] at h
    cases hext : extend path text made with
    | error fault =>
      simp only [hext] at h
      cases h
      exact extend_error hext
    | ok files'' =>
      simp only [hext] at h
      cases h

/-! ## Writing again -/

/-- A new file hides no folder. -/
theorem follow_put {contents : List (Path × String)} {folders : List Path} (hp : isFolder p ⟨contents, folders⟩ = false)
    (h : follow ⟨contents, folders⟩ here names = .ok folder) :
    follow ⟨put p text contents, folders⟩ here names = .ok folder := by
  fun_induction follow ⟨contents, folders⟩ here names with
  | case1 => exact h
  | case2 here name rest hstay ih =>
    rw [follow, if_pos hstay]
    exact ih h
  | case3 here rest hstay ih =>
    rw [follow, if_neg hstay, if_pos rfl]
    exact ih h
  | case6 here name rest hstay hup hshort hfile hfolder ih =>
    have hne : here ++ [name] ≠ p := by
      rintro rfl
      rw [hp] at hfolder
      cases hfolder
    have hfile' : ¬isFile (here ++ [name]) ⟨put p text contents, folders⟩ = true := by
      rwa [isFile, read?_put_of_ne hne]
    have hfolder' : isFolder (here ++ [name]) ⟨put p text contents, folders⟩ = true := hfolder
    rw [follow, if_neg hstay, if_neg hup, if_neg hshort, if_neg hfile', if_pos hfolder']
    exact ih h
  | case4 | case5 | case7 => cases h

theorem Leads.put {contents : List (Path × String)} {folders : List Path} (h : Leads ⟨contents, folders⟩ path p) :
    Leads ⟨Files.put p text contents, folders⟩ path p where
  noNull := h.noNull
  nonempty := h.nonempty
  folder := by
    obtain ⟨folder, hfolder, hp⟩ := h.folder
    exact ⟨folder, follow_put h.notFolder hfolder, hp⟩
  ownName := h.ownName
  notFolder := h.notFolder
  short := h.short

/-- Where the folders are there, none is made. The names themselves were fit for folders once. -/
theorem makeFolders_of_follow {made : Files} (hmade : makeFolders here names files = (.ok (), made))
    (h : files'.follow here names = .ok folder) : makeFolders here names files' = (.ok (), files') := by
  fun_induction follow files' here names generalizing files with
  | case1 => rfl
  | case2 here name rest hstay ih =>
    rw [makeFolders, if_pos hstay] at hmade ⊢
    exact ih hmade h
  | case3 here rest hstay ih =>
    rw [makeFolders, if_neg hstay, if_pos rfl] at hmade ⊢
    exact ih hmade h
  | case6 here name rest hstay hup hshort hfile hfolder ih =>
    rw [makeFolders, if_neg hstay, if_neg hup] at hmade ⊢
    dsimp only at hmade ⊢
    split at hmade
    · cases hmade
    rename_i hnull
    split at hmade
    · cases hmade
    rw [if_neg hnull, if_neg hshort, if_neg hfile, if_pos hfolder]
    split at hmade <;> exact ih hmade h
  | case4 | case5 | case7 => cases h

def Writable (path : String) (files : Files) : Prop := ∀ text, ∃ files', files.append path text = (.ok (), files')

theorem append_of_leads {made : Files} (hmade : makeFolders [] (Path.names path).dropLast files = (.ok (), made))
    (hbare : path = Path.withoutSlashes path) (h : Leads made path p) (text : String) :
    files.append path text = (.ok (), { made with contents := put p text made.contents }) := by
  rw [append, hmade]
  simp only
  rw [extend_ok_iff.mpr ⟨p, hbare, h, rfl⟩]

/-- Where one append went through, any goes through. -/
theorem writable_of_append (h : files.append path text = (.ok (), files')) :
    Writable path files ∧ Writable path files' := by
  obtain ⟨folders, p, hmade, hbare, hp, rfl⟩ := append_eq_ok h
  have hput : Leads ⟨put p text files.contents, folders⟩ path p := hp.put
  obtain ⟨folder, hfolder, -⟩ := hput.folder
  have hagain := makeFolders_of_follow hmade hfolder
  exact ⟨fun text' => ⟨_, append_of_leads hmade hbare hp text'⟩, fun text' => ⟨_, append_of_leads hagain hbare hput text'⟩⟩

/-! ## Failing again -/

theorem isFile_makeFolders (h : files'.contents = files.contents) (here : Path) (names : List String) (p : Path) :
    (makeFolders here names files').2.isFile p = files.isFile p := by
  rw [isFile, isFile, read?, read?, makeFolders_contents, h]

/-- A folder on the way that is there is gone through. -/
theorem makeFolders_through {name : String} {rest : List String} (hstay : ¬Path.staysPut name = true)
    (hup : name ≠ "..") (hnull : ¬Text.hasNull name = true) (hshort : ¬Path.isTooLong name = true)
    (hfile : ¬files.isFile (here ++ [name]) = true) (hfolder : files.isFolder (here ++ [name]) = true) :
    makeFolders here (name :: rest) files = makeFolders (here ++ [name]) rest files := by
  rw [makeFolders, if_neg hstay, if_neg hup]
  dsimp only
  rw [if_neg hnull, if_neg hshort, if_neg hfile, if_pos hfolder]

/-- Making the same folders in the tree that was left makes none and ends the same way. -/
theorem makeFolders_again (here : Path) (names : List String) (files : Files) :
    makeFolders here names (makeFolders here names files).2 = makeFolders here names files := by
  fun_induction makeFolders here names files with
  | case1 => rfl
  | case2 here name rest files hstay ih => rw [makeFolders, if_pos hstay, ih]
  | case3 here rest files hstay ih => rw [makeFolders, if_neg hstay, if_pos rfl, ih]
  | case4 here name rest files hstay hup hnull =>
    rw [makeFolders, if_neg hstay, if_neg hup]
    exact if_pos hnull
  | case5 here name rest files hstay hup hnull hlong =>
    rw [makeFolders, if_neg hstay, if_neg hup]
    dsimp only
    rw [if_neg hnull, if_pos hlong]
  | case6 here name rest files hstay hup next hnull hshort hfile =>
    rw [makeFolders, if_neg hstay, if_neg hup]
    dsimp only
    rw [if_neg hnull, if_neg hshort, if_pos hfile]
  | case7 here name rest files hstay hup next hnull hshort hfile hfolder ih =>
    rw [makeFolders_through hstay hup hnull hshort, ih]
    · rwa [isFile_makeFolders rfl]
    · exact isFolder_mono (makeFolders_folders next rest files) hfolder
  | case8 here name rest files hstay hup next hnull hshort hfile hfolder ih =>
    rw [makeFolders_through hstay hup hnull hshort, ih]
    · have hkept : ({ files with folders := next :: files.folders } : Files).contents = files.contents := rfl
      rwa [isFile_makeFolders hkept]
    · refine isFolder_mono (makeFolders_folders next rest _) ?_
      rw [isFolder, Bool.or_eq_true]
      exact Or.inr (List.contains_iff_mem.mpr List.mem_cons_self)

/-- How an append ends does not depend on the text. -/
theorem append_fst (path text : String) (files : Files) : (files.append path text).1 =
    (makeFolders [] (Path.names path).dropLast files).1 >>= fun _ =>
      ((makeFolders [] (Path.names path).dropLast files).2.locateNew path).map fun _ => () := by
  rw [append]
  rcases makeFolders [] (Path.names path).dropLast files with ⟨_ | ⟨⟨⟩⟩, made⟩
  · rfl
  · dsimp only
    rw [extend]
    cases locateNew path made <;> rfl

/-- An append that fails leaves the tree with the folders that it made. -/
theorem append_snd_of_error (h : files.append path text = (.error fault, files')) :
    files' = (makeFolders [] (Path.names path).dropLast files).2 := by
  rw [append] at h
  rcases hmade : makeFolders [] (Path.names path).dropLast files with ⟨_ | ⟨⟨⟩⟩, made⟩
  · rw [hmade] at h
    cases h
    rfl
  · rw [hmade] at h
    dsimp only at h
    split at h
    · cases h
      rfl
    · cases h

/-- After an append any ends as it would have ended before. -/
theorem append_again (path text text' : String) (files : Files) :
    ((files.append path text).2.append path text').1 = (files.append path text').1 := by
  rcases happend : files.append path text with ⟨fault | ⟨⟨⟩⟩, files'⟩
  · rw [append_fst, append_fst, append_snd_of_error happend, makeFolders_again]
  · obtain ⟨hbefore, hafter⟩ := writable_of_append happend
    obtain ⟨_, hbefore⟩ := hbefore text'
    obtain ⟨_, hafter⟩ := hafter text'
    rw [hbefore]
    exact congrArg (·.1) hafter

/-- What the files hold after an append. -/
theorem append_contents (path text : String) (files : Files) : (files.append path text).2.contents =
    match (files.append path text).1 with
    | .error _ => files.contents
    | .ok () => put (Path.ofText path) text files.contents := by
  rcases happend : files.append path text with ⟨fault | ⟨⟨⟩⟩, files'⟩
  · rw [append_snd_of_error happend]
    exact makeFolders_contents _ _ _
  · obtain ⟨folders, p, -, -, hp, rfl⟩ := append_eq_ok happend
    rw [eq_ofText_of_leads hp]

end Files

end ShaderLoom
