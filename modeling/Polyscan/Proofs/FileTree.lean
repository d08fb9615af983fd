import Polyscan.Host.FileTree
import Polyscan.Proofs.Path

/-!
Resolution of paths in file trees. It depends only on the kinds of nodes (`walk_congr`), so it is unchanged
when the content of a file changes, and a path that led to a free name leads to a file that is created there
(`walk_new`).
-/
namespace Polyscan.Node

/-! ## Places -/

/-- The part of a node on which resolution depends. -/
inductive Kind where
  | file
  | folder
  | link (target : String)
  deriving DecidableEq

def kind : Node → Kind
  | file _ => .file
  | folder _ => .folder
  | link target => .link target

/-- The kind of the node at a place. -/
def look (root : Node) (place : List String) : Option Kind := (root.at? place).map kind

theorem at?_cons {name : String} {entries : List (String × Node)} (rest : List String) :
    (folder entries).at? (name :: rest) = (findEntry name entries).bind (·.at? rest) := by
  rw [at?, entry?]
  cases findEntry name entries <;> rfl

theorem at?_append (root : Node) (names rest : List String) :
    root.at? (names ++ rest) = (root.at? names).bind (·.at? rest) := by
  induction names generalizing root with
  | nil => rfl
  | cons name names ih =>
    rw [List.cons_append, at?, at?]
    cases root.entry? name with
    | none => rfl
    | some n => exact ih n

/-- The entries of a folder are at the places behind it. -/
theorem at?_concat {root : Node} {here : List String} {entries : List (String × Node)}
    (h : root.at? here = some (.folder entries)) (name : String) :
    root.at? (here ++ [name]) = findEntry name entries := by
  rw [at?_append, h, Option.bind_some, at?_cons]
  cases findEntry name entries <;> rfl

theorem look_eq_folder_iff {root : Node} {place : List String} :
    root.look place = some .folder ↔ ∃ entries, root.at? place = some (.folder entries) := by
  unfold look
  cases root.at? place with
  | none => simp
  | some n => cases n <;> simp [kind]

theorem look_eq_file_iff {root : Node} {place : List String} :
    root.look place = some .file ↔ ∃ content, root.at? place = some (.file content) := by
  unfold look
  cases root.at? place with
  | none => simp
  | some n => cases n <;> simp [kind]

theorem look_eq_link_iff {root : Node} {place : List String} {target : String} :
    root.look place = some (.link target) ↔ root.at? place = some (.link target) := by
  unfold look
  cases root.at? place with
  | none => simp
  | some n => cases n <;> simp [kind]

theorem isSome_of_look {root : Node} {place : List String} {k : Kind} (h : root.look place = some k) :
    (root.at? place).isSome = true := by
  obtain ⟨n, hn, -⟩ := Option.map_eq_some_iff.mp h
  rw [hn]
  rfl

/-! ## Ways -/

/-- `descend` in terms of the kinds of nodes. -/
def descendBy (look : List String → Option Kind) (follow : Bool) (here : List String) :
    List String → Descent
  | [] => .done (.found here)
  | piece :: rest =>
    if look here ≠ some .folder then .refused .notAFolder
    else if piece = "" ∨ piece = "." then descendBy look follow here rest
    else if piece = ".." then descendBy look follow here.dropLast rest
    else if nameLimit < piece.utf8ByteSize then .refused .nameTooLong
    else
      match look (here ++ [piece]) with
      | none => if rest.isEmpty then .done (.free here piece) else .refused .notFound
      | some (.link target) =>
        if rest.isEmpty && !follow then .done (.found (here ++ [piece]))
        else if target.isEmpty then .refused .notFound
        else .redirected (if Path.isAbsolute target then [] else here) (Path.pieces target ++ rest)
      | some _ => descendBy look follow (here ++ [piece]) rest

theorem descend_eq_descendBy (root : Node) (follow : Bool) (here todo : List String) :
    root.descend follow here todo = descendBy root.look follow here todo := by
  induction todo generalizing here with
  | nil => rfl
  | cons piece rest ih =>
    rw [descend, descendBy]
    cases hhere : root.at? here with
    | none =>
      have hlook : root.look here ≠ some .folder := by simp [look, hhere]
      rw [if_pos hlook]
    | some n =>
      cases n with
      | file content =>
        have hlook : root.look here ≠ some .folder := by simp [look, hhere, kind]
        rw [if_pos hlook]
      | link target =>
        have hlook : root.look here ≠ some .folder := by simp [look, hhere, kind]
        rw [if_pos hlook]
      | folder entries =>
        have hlook : root.look here = some .folder := look_eq_folder_iff.mpr ⟨entries, hhere⟩
        have hnext : root.look (here ++ [piece]) = (findEntry piece entries).map kind := by
          rw [look, at?_concat hhere]
        simp only [hlook, ne_eq, not_true_eq_false, if_false, hnext, ih]
        cases findEntry piece entries with
        | none => rfl
        | some m => cases m <;> rfl

/-- Trees with the same kinds at all places resolve all paths alike. -/
theorem walk_congr {root root' : Node} (h : root'.look = root.look) (follow : Bool) (links : Nat)
    (here todo : List String) : root'.walk follow links here todo = root.walk follow links here todo := by
  have hdescend : ∀ here todo, root'.descend follow here todo = root.descend follow here todo := by
    intro here todo
    rw [descend_eq_descendBy, descend_eq_descendBy, h]
  induction links generalizing here todo with
  | zero => rw [walk, walk, hdescend]
  | succ links ih =>
    rw [walk, walk, hdescend]
    cases root.descend follow here todo with
    | done place => rfl
    | refused e => rfl
    | redirected here todo => exact ih here todo

/-- A path that ends at a free name ends in a folder without this entry. -/
theorem descend_free {root : Node} {follow : Bool} {here todo folder : List String} {name : String}
    (h : root.descend follow here todo = .done (.free folder name)) :
    ∃ entries, root.at? folder = some (.folder entries) ∧ findEntry name entries = none := by
  induction todo generalizing here with
  | nil => cases h
  | cons piece rest ih =>
    rw [descend] at h
    split at h
    · next entries hhere =>
      split at h
      · exact ih h
      split at h
      · exact ih h
      split at h
      · cases h
      split at h
      · next hnone =>
        split at h
        · cases h
          exact ⟨entries, hhere, hnone⟩
        · cases h
      · split at h
        · cases h
        split at h <;> cases h
      · exact ih h
    · cases h

/-- The path leads to the place through at most this number of links. -/
inductive Leads (root : Node) (follow : Bool) (place : Place) : Nat → List String → List String → Prop
  | done {links : Nat} {here todo : List String} (h : root.descend follow here todo = .done place) :
      Leads root follow place links here todo
  | redirected {links : Nat} {here todo there rest : List String}
      (h : root.descend follow here todo = .redirected there rest)
      (hrest : Leads root follow place links there rest) :
      Leads root follow place (links + 1) here todo

theorem walk_eq_ok_iff {root : Node} {follow : Bool} {links : Nat} {here todo : List String}
    {place : Place} :
    root.walk follow links here todo = .ok place ↔ root.Leads follow place links here todo := by
  constructor
  · intro h
    induction links generalizing here todo with
    | zero =>
      cases hdescend : root.descend follow here todo <;> simp only [walk, hdescend] at h <;> cases h
      exact .done hdescend
    | succ links ih =>
      cases hdescend : root.descend follow here todo with
      | done found =>
        simp only [walk, hdescend] at h
        cases h
        exact .done hdescend
      | refused e =>
        simp only [walk, hdescend] at h
        cases h
      | redirected there rest =>
        simp only [walk, hdescend] at h
        exact .redirected hdescend (ih h)
  · intro h
    induction h with
    | @done links _ _ hdone => cases links <;> rw [walk, hdone]
    | redirected hnext _ ih =>
      rw [walk, hnext]
      exact ih

theorem walk_of_done {root : Node} {follow : Bool} {here todo : List String} {place : Place}
    (h : root.descend follow here todo = .done place) (links : Nat) :
    root.walk follow links here todo = .ok place :=
  walk_eq_ok_iff.mpr (.done h)

theorem walk_free {root : Node} {follow : Bool} {links : Nat} {here todo folder : List String}
    {name : String} (h : root.walk follow links here todo = .ok (.free folder name)) :
    ∃ entries, root.at? folder = some (.folder entries) ∧ findEntry name entries = none := by
  rw [walk_eq_ok_iff] at h
  induction h with
  | done hdone => exact descend_free hdone
  | redirected _ _ ih => exact ih

/-! ## Ways that go on -/

/-- `descend` of a path with more pieces behind it, if the path ends at a node or at a link. -/
theorem descend_append (root : Node) (here todo rest : List String) :
    (∀ there, root.descend true here todo = .done (.found there) →
        root.descend true here (todo ++ rest) = root.descend true there rest) ∧
      ∀ there more, root.descend true here todo = .redirected there more →
        root.descend true here (todo ++ rest) = .redirected there (more ++ rest) := by
  induction todo generalizing here with
  | nil =>
    refine ⟨fun there h => ?_, fun there more h => ?_⟩
    · cases h
      rfl
    · cases h
  | cons piece todo ih =>
    rw [List.cons_append, descend, descend]
    split
    · split
      · exact ih here
      split
      · exact ih here.dropLast
      split
      · exact ⟨fun _ h => (nomatch h), fun _ _ h => (nomatch h)⟩
      split
      · refine ⟨fun _ h => ?_, fun _ _ h => ?_⟩ <;> split at h <;> cases h
      · refine ⟨fun _ h => ?_, fun _ _ h => ?_⟩
        · simp only [Bool.not_true, Bool.and_false, Bool.false_eq_true, if_false] at h
          split at h <;> cases h
        · simp only [Bool.not_true, Bool.and_false, Bool.false_eq_true, if_false] at h ⊢
          split at h
          · cases h
          · next hsome =>
            cases h
            rw [if_neg hsome, List.append_assoc]
      · exact ih (here ++ [piece])
    · exact ⟨fun _ h => (nomatch h), fun _ _ h => (nomatch h)⟩

/-- `walk` depends on `descend` alone. -/
theorem walk_of_descend_eq {root : Node} {follow : Bool} {here here' todo todo' : List String}
    (h : root.descend follow here todo = root.descend follow here' todo') (links : Nat) :
    root.walk follow links here todo = root.walk follow links here' todo' := by
  cases links <;> rw [walk, walk, h]

/-- Behind a node that was found the resolution continues from there, with the links that are left. -/
theorem walk_append {root : Node} {links : Nat} {here todo there : List String}
    (h : root.walk true links here todo = .ok (.found there)) :
    ∃ left ≤ links, ∀ rest, root.walk true links here (todo ++ rest) = root.walk true left there rest := by
  rw [walk_eq_ok_iff] at h
  induction h with
  | @done links here todo hdone =>
    exact ⟨links, Nat.le_refl links, fun rest =>
      walk_of_descend_eq ((descend_append root here todo rest).1 there hdone) links⟩
  | @redirected links here todo next more hnext _ ih =>
    obtain ⟨left, hle, hrest⟩ := ih
    refine ⟨left, Nat.le_succ_of_le hle, fun rest => ?_⟩
    rw [walk, (descend_append root here todo rest).2 next more hnext]
    exact hrest rest

/-! ## Ways down through folders -/

/-- A node with another one beneath it is a folder. -/
theorem look_of_at?_concat {root : Node} {here : List String} {name : String} {n : Node}
    (h : root.at? (here ++ [name]) = some n) : root.look here = some .folder := by
  rw [at?_append] at h
  obtain ⟨m, hm, h⟩ := Option.bind_eq_some_iff.mp h
  cases m with
  | folder entries => exact look_eq_folder_iff.mpr ⟨entries, hm⟩
  | file content => cases h
  | link target => cases h

/-- Every place above a folder is a folder. -/
theorem look_of_append {root : Node} {here rest : List String}
    (h : root.look (here ++ rest) = some .folder) : root.look here = some .folder := by
  obtain ⟨entries, h⟩ := look_eq_folder_iff.mp h
  cases rest with
  | nil => exact look_eq_folder_iff.mpr ⟨entries, by rwa [List.append_nil] at h⟩
  | cons name rest =>
    rw [← List.singleton_append, ← List.append_assoc, at?_append] at h
    obtain ⟨n, hn, -⟩ := Option.bind_eq_some_iff.mp h
    exact look_of_at?_concat hn

/-- A name that is not a link is refused for its length or leads to the entry. -/
theorem descend_name {root : Node} {here : List String} {name : String} {n : Node} (hname : Path.IsName name)
    (hn : root.at? (here ++ [name]) = some n) (hlink : ∀ target, n ≠ .link target) (rest : List String) :
    root.descend true here (name :: rest) = .refused .nameTooLong ∨
      root.descend true here (name :: rest) = root.descend true (here ++ [name]) rest := by
  have hhere := look_of_at?_concat hn
  have hnext : root.look (here ++ [name]) = some n.kind := by rw [look, hn]; rfl
  rw [descend_eq_descendBy, descend_eq_descendBy, descendBy, hhere, hnext]
  simp only [ne_eq, not_true_eq_false, if_false, hname.ne_empty, hname.ne_dot, hname.ne_dots, or_self]
  split
  · exact .inl rfl
  · cases n with
    | file content => exact .inr rfl
    | folder entries => exact .inr rfl
    | link target => exact absurd rfl (hlink target)

theorem walk_name {root : Node} {links : Nat} {here rest : List String} {name : String} {n : Node}
    {place : Place} (h : root.walk true links here (name :: rest) = .ok place) (hname : Path.IsName name)
    (hn : root.at? (here ++ [name]) = some n) (hlink : ∀ target, n ≠ .link target) :
    root.walk true links (here ++ [name]) rest = .ok place := by
  rcases descend_name hname hn hlink rest with hrefused | hdescend
  · cases walk_eq_ok_iff.mp h with
    | done hdone =>
      rw [hrefused] at hdone
      cases hdone
    | redirected hnext _ =>
      rw [hrefused] at hnext
      cases hnext
  · rw [← walk_of_descend_eq hdescend links]
    exact h

/-- A path along nested folders continues from the innermost one. -/
theorem walk_names {root : Node} {links : Nat} {here names rest : List String} {place : Place}
    (h : root.walk true links here (names ++ rest) = .ok place) (hnames : ∀ c ∈ names, Path.IsName c)
    (hfolder : root.look (here ++ names) = some .folder) :
    root.walk true links (here ++ names) rest = .ok place := by
  induction names generalizing here with
  | nil => rwa [List.append_nil]
  | cons name names ih =>
    rw [← List.singleton_append, ← List.append_assoc] at hfolder ⊢
    obtain ⟨entries, hentries⟩ := look_eq_folder_iff.mp (look_of_append hfolder)
    have hnext := walk_name h (hnames name List.mem_cons_self) hentries fun _ => Node.noConfusion
    exact ih hnext (fun c hc => hnames c (List.mem_cons_of_mem name hc)) hfolder

/-! ## New files -/

/-- The places at which a file can be put: those of files, and free names in folders. -/
inductive TakesFile : Node → List String → Prop
  | replaced (content : FileContent) : TakesFile (file content) []
  | new {name : String} {entries : List (String × Node)} (h : findEntry name entries = none) :
      TakesFile (folder entries) [name]
  | inner {name : String} {n : Node} {entries : List (String × Node)} {rest : List String}
      (h : findEntry name entries = some n) (hn : n.TakesFile rest) :
      TakesFile (folder entries) (name :: rest)

theorem takesFile_of_file {root : Node} {names : List String} {content : FileContent}
    (h : root.at? names = some (.file content)) : root.TakesFile names := by
  induction names generalizing root with
  | nil =>
    cases h
    exact .replaced content
  | cons name rest ih =>
    cases root with
    | folder entries =>
      rw [at?_cons] at h
      obtain ⟨n, hn, h⟩ := Option.bind_eq_some_iff.mp h
      exact .inner hn (ih h)
    | file content => cases h
    | link target => cases h

theorem takesFile_of_free {root : Node} {folder : List String} {name : String}
    {entries : List (String × Node)} (hfolder : root.at? folder = some (.folder entries))
    (hname : findEntry name entries = none) : root.TakesFile (folder ++ [name]) := by
  induction folder generalizing root with
  | nil =>
    cases hfolder
    exact .new hname
  | cons first rest ih =>
    cases root with
    | folder all =>
      rw [at?_cons] at hfolder
      obtain ⟨n, hn, hfolder⟩ := Option.bind_eq_some_iff.mp hfolder
      exact .inner hn (ih hfolder)
    | file content => cases hfolder
    | link target => cases hfolder

theorem findEntry_putEntry (name other : String) (new : Node) (entries : List (String × Node)) :
    findEntry other (putEntry name (some new) entries) =
      if other = name then some new else findEntry other entries := by
  induction entries with
  | nil => simp [putEntry, findEntry, eq_comm]
  | cons entry rest ih =>
    obtain ⟨a, old⟩ := entry
    by_cases ha : a = name
    · subst ha
      by_cases hother : other = a
      · simp [putEntry, findEntry, hother]
      · simp [putEntry, findEntry, hother, Ne.symm hother]
    · rw [putEntry, if_neg ha, findEntry, findEntry, ih]
      by_cases hother : a = other
      · have hname : other ≠ name := fun heq => ha (hother.trans heq)
        rw [if_pos hother, if_neg hname, if_pos hother]
      · rw [if_neg hother, if_neg hother]

theorem setAt_inner {name : String} {n : Node} {entries : List (String × Node)}
    (h : findEntry name entries = some n) (new : Node) (rest : List String) :
    (folder entries).setAt (some new) (name :: rest) =
      folder (putEntry name (some (n.setAt (some new) rest)) entries) := by
  cases rest <;> simp [setAt, h]

theorem at?_setAt {root : Node} {names : List String} (h : root.TakesFile names) (new : Node) :
    (root.setAt (some new) names).at? names = some new := by
  induction h with
  | replaced content => rfl
  | new hname => rw [setAt, at?_cons, findEntry_putEntry, if_pos rfl]; rfl
  | inner hname hn ih =>
    rw [setAt_inner hname, at?_cons, findEntry_putEntry, if_pos rfl]
    exact ih

/-- A file that is put at a place changes no other place. -/
theorem look_setAt {root : Node} {names : List String} (h : root.TakesFile names) (content : FileContent)
    (place : List String) : (root.setAt (some (.file content)) names).look place =
      if place = names then some .file else root.look place := by
  have hfile : ∀ (content : FileContent) (name : String) (rest : List String),
      (file content).look (name :: rest) = none := fun _ _ _ => rfl
  induction h generalizing place with
  | replaced old =>
    cases place with
    | nil => rfl
    | cons name rest => rfl
  | @new name entries hname =>
    cases place with
    | nil => rfl
    | cons other rest =>
      rw [setAt, look, look, at?_cons, at?_cons, findEntry_putEntry]
      by_cases hother : other = name
      · subst hother
        cases rest with
        | nil => simp [at?, kind]
        | cons _ _ => simp [hname, at?, entry?]
      · simp [hother]
  | @inner name n entries names hname hn ih =>
    cases place with
    | nil => rw [setAt_inner hname]; rfl
    | cons other rest =>
      rw [setAt_inner hname, look, look, at?_cons, at?_cons, findEntry_putEntry]
      by_cases hother : other = name
      · subst hother
        simpa [look, hname] using ih rest
      · simp [hother]

/-- With a file at the free name, links are followed as before, and what ended at the free name ends at the
file. -/
theorem descendBy_new {look look' : List String → Option Kind} {folder : List String} {name : String}
    (hnone : look (folder ++ [name]) = none)
    (hlook : ∀ place, look' place = if place = folder ++ [name] then some .file else look place)
    (follow : Bool) (here todo : List String) :
    (∀ there rest, descendBy look follow here todo = .redirected there rest →
        descendBy look' follow here todo = .redirected there rest) ∧
      (descendBy look follow here todo = .done (.free folder name) →
        descendBy look' follow here todo = .done (.found (folder ++ [name]))) := by
  induction todo generalizing here with
  | nil => exact ⟨fun _ _ h => (nomatch h), fun h => (nomatch h)⟩
  | cons piece rest ih =>
    by_cases hhere : look here = some .folder
    · have hhere' : look' here = some .folder := by
        have hne : here ≠ folder ++ [name] := by
          rintro rfl
          rw [hnone] at hhere
          cases hhere
        rw [hlook, if_neg hne, hhere]
      simp only [descendBy, hhere, hhere', ne_eq, not_true_eq_false, if_false]
      split
      · exact ih here
      split
      · exact ih here.dropLast
      split
      · exact ⟨fun _ _ h => (nomatch h), fun h => (nomatch h)⟩
      by_cases hnext : here ++ [piece] = folder ++ [name]
      · -- the way is at the place of the new file
        obtain ⟨rfl, heq⟩ := List.append_inj' hnext rfl
        cases heq
        rw [hlook, if_pos rfl, hnone]
        cases rest with
        | nil => exact ⟨fun _ _ h => (nomatch h), fun _ => rfl⟩
        | cons _ _ => exact ⟨fun _ _ h => (nomatch h), fun h => (nomatch h)⟩
      · rw [hlook, if_neg hnext]
        cases look (here ++ [piece]) with
        | none =>
          refine ⟨fun _ _ h => h, fun h => ?_⟩
          cases rest with
          | nil =>
            cases h
            exact absurd rfl hnext
          | cons _ _ => cases h
        | some k =>
          cases k with
          | file => exact ih (here ++ [piece])
          | folder => exact ih (here ++ [piece])
          | link target =>
            refine ⟨fun _ _ h => h, fun h => ?_⟩
            dsimp only at h
            split at h
            · cases h
            split at h <;> cases h
    · simp only [descendBy, ne_eq, hhere, not_false_eq_true, if_true]
      exact ⟨fun _ _ h => (nomatch h), fun h => (nomatch h)⟩

/-- A path to a free name leads to the file that is put there. -/
theorem walk_new {root : Node} {follow : Bool} {links : Nat} {here todo folder : List String}
    {name : String} (h : root.walk follow links here todo = .ok (.free folder name))
    (content : FileContent) :
    (root.setAt (some (.file content)) (folder ++ [name])).walk follow links here todo =
      .ok (.found (folder ++ [name])) := by
  obtain ⟨entries, hfolder, hname⟩ := walk_free h
  have hnone : root.look (folder ++ [name]) = none := by rw [look, at?_concat hfolder, hname]; rfl
  have hlook := look_setAt (takesFile_of_free hfolder hname) content
  have hdescend := fun here todo => descendBy_new hnone hlook follow here todo
  simp only [← descend_eq_descendBy] at hdescend
  rw [walk_eq_ok_iff] at h ⊢
  induction h with
  | @done _ here todo hdone => exact .done ((hdescend here todo).2 hdone)
  | @redirected _ here todo there rest hnext _ ih => exact .redirected ((hdescend here todo).1 there rest hnext) ih

end Polyscan.Node
