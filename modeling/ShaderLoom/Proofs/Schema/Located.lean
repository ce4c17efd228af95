/-
  ShaderLoom.Proofs.Schema.Located — where a problem lies and what is said of the value there.

  A rule finds something wrong with a value itself (`Finding`), with a name in it, or sends a part of
  it to another schema (`Leads`), and these are all the problems it has (`mem_problemsOfRule`). So the
  path of a problem follows the rules step by step to the rules that govern the value at its end, and
  one of them reports it there (`mem_problems_iff`, by induction on the path). In a value without
  repeated keys the same path leads to that value through keys and positions (`follow?_of_governs`).
  The problems of a configuration are these, in the order of the texts of their paths, and there are
  none exactly when it passes (`judge_problems`).
-/

import ShaderLoom.Proofs.Value.Printable
import ShaderLoom.Proofs.Value.Reordered
import ShaderLoom.Schema.Shader

namespace ShaderLoom

/-! ## Parts of a value -/

namespace Value

variable {v u w : Value} {part : PathPart}

/-- The part under a key or at a position. -/
def part? : Value → PathPart → Option Value
  | .map entries, .key name => Entries.get? name entries
  | .list items, .index i => items[i]?
  | _, _ => none

/-- The value that a path leads to. -/
def follow? (v : Value) : List PathPart → Option Value
  | [] => some v
  | part :: rest => (v.part? part).bind (·.follow? rest)

theorem isKeyed_of_part? (hk : v.isKeyed = true) (h : v.part? part = some u) : u.isKeyed = true := by
  cases v with
  | map entries =>
    cases part with
    | key name => exact (isKeyed_map.mp hk).2 _ (Entries.mem_of_get? h)
    | index i => cases h
  | list items =>
    cases part with
    | key name => cases h
    | index i => exact itemsKeyed_iff.mp hk u (List.mem_of_getElem? h)
  | _ => cases h

end Value

namespace Schema

/-! ## What a rule finds -/

/-- What a rule finds wrong with a value itself, and what it says of it: nothing when that would show
a value that cannot be written out. -/
inductive Finding (declared : List String) : Rule → Value → Option String → Prop
  | kinds {kinds : List ValueKind} {v : Value} (h : ∀ k ∈ kinds, k.admits v = false) :
      Finding declared (.kinds kinds) v
        (v.inspect?.map (· ++ " is not of type " ++ ", ".intercalate (kinds.map fun k => Text.quoted k.name)))
  | oneOf {tags : List String} {v : Value} (h : ∀ s ∈ tags, v ≠ .str s) :
      Finding declared (.oneOf tags) v (v.inspect?.map (· ++ " is not one of " ++ (texts tags).inspect))
  | required {keys : List String} {entries : Entries Value} {key : String} (hkey : key ∈ keys)
      (h : key ∉ Entries.keys entries) :
      Finding declared (.required keys) (.map entries) (some (Text.quoted key ++ " is a required property"))
  /-- The keys that are not declared, in order. -/
  | closed {entries : Entries Value} {extra : List String} (hne : extra ≠ []) (hsorted : extra.Pairwise (· ≤ ·))
      (hperm : extra.Perm ((Entries.keys entries).filter fun key => !declared.contains key)) :
      Finding declared .closed (.map entries)
        (some ("Additional properties are not allowed (" ++ ", ".intercalate (extra.map Text.quoted) ++ " " ++
          (if extra.length = 1 then "was" else "were") ++ " unexpected)"))
  | fewest {count : Nat} {items : List Value} (h : items.length < count) :
      Finding declared (.fewest count) (.list items) ((Value.list items).inspect?.map (· ++ " is too short"))
  | most {count : Nat} {items : List Value} (h : count < items.length) :
      Finding declared (.most count) (.list items) ((Value.list items).inspect?.map (· ++ " is too long"))
  | shortest {length : Nat} {s : String} (h : s.length < length) :
      Finding declared (.shortest length) (.str s)
        (some ((Value.str s).inspect ++ (if length = 1 then " should be non-empty" else " is too short")))
  | form {form : TextForm} {s : String} (h : form.fits s.toList = false) :
      Finding declared (.form form) (.str s)
        (some ((Value.str s).inspect ++ " does not match " ++ Text.quoted form.pattern))
  | least {bound v : Value} (hv : isNumber v = true) (h : isBelow v bound = true) :
      Finding declared (.least bound) v (v.inspect?.map (· ++ " is less than the minimum of " ++ bound.inspect))
  | greatest {bound v : Value} (hv : isNumber v = true) (h : isBelow bound v = true) :
      Finding declared (.greatest bound) v
        (v.inspect?.map (· ++ " is greater than the maximum of " ++ bound.inspect))
  | above {bound v : Value} (hv : isNumber v = true) (h : isAtMost v bound = true) :
      Finding declared (.above bound) v
        (v.inspect?.map (· ++ " is less than or equal to the minimum of " ++ bound.inspect))

theorem Finding.unprintable {declared : List String} {r : Rule} {v : Value} {m : Option String}
    (h : Finding declared r v m) (hm : m = none) : v.isPrintable = false := by
  cases h with
  | kinds | oneOf | fewest | most | least | greatest | above =>
    exact Value.inspect?_eq_none_iff.mp (Option.map_eq_none_iff.mp hm)
  | required | closed | shortest | form => cases hm

/-- A rule sends a part of a value to a schema. -/
inductive Leads (declared : List String) : Rule → Value → PathPart → Schema → Value → Prop
  | field {fields : List (String × Schema)} {entries : Entries Value} {name : String} {s : Schema} {u : Value}
      (hs : (name, s) ∈ fields) (h : Entries.get? name entries = some u) :
      Leads declared (.fields fields) (.map entries) (.key name) s u
  | other {each : Schema} {entries : Entries Value} {name : String} {u : Value} (hd : name ∉ declared)
      (h : (name, u) ∈ entries) : Leads declared (.otherFields each) (.map entries) (.key name) each u
  | item {each : Schema} {items : List Value} {i : Nat} {u : Value} (h : items[i]? = some u) :
      Leads declared (.items each) (.list items) (.index i) each u

/-- A problem that a rule has with a value: with the value itself, with a part of it, or with a name
in it. -/
inductive Tells (declared : List String) : Rule → Value → Problem → Prop
  | itself {r : Rule} {v : Value} {m : Option String} (h : Finding declared r v m) : Tells declared r v ⟨m, []⟩
  | part {r : Rule} {v u : Value} {part : PathPart} {s : Schema} {m : Option String} {path : List PathPart}
      (hu : Leads declared r v part s u) (h : ⟨m, path⟩ ∈ problems s u) : Tells declared r v ⟨m, part :: path⟩
  | name {names : Schema} {entries : Entries Value} {key : String} {p : Problem}
      (hkey : key ∈ Entries.keys entries) (h : p ∈ problems names (.str key)) :
      Tells declared (.fieldNames names) (.map entries) p

variable {declared : List String} {r : Rule} {v : Value} {p : Problem} {entries : Entries Value}

theorem mem_kindProblem {kinds : List ValueKind} : p ∈ kindProblem kinds v ↔ (∀ k ∈ kinds, k.admits v = false) ∧
    p = ⟨v.inspect?.map (· ++ " is not of type " ++ ", ".intercalate (kinds.map fun k => Text.quoted k.name)), []⟩ := by
  rw [kindProblem, List.mem_ite_nil_left, List.mem_singleton]
  exact and_congr_left fun _ => by simp

theorem mem_tagProblem {tags : List String} : p ∈ tagProblem tags v ↔ (∀ s ∈ tags, v ≠ .str s) ∧
    p = ⟨v.inspect?.map (· ++ " is not one of " ++ (texts tags).inspect), []⟩ := by
  cases v with
  | str s =>
    have hfound : ¬tags.contains s = true ↔ ∀ t ∈ tags, Value.str s ≠ .str t := by
      simp only [List.contains_iff_mem, ne_eq, Value.str.injEq]
      exact ⟨fun h t ht heq => h (heq ▸ ht), fun h hs => h s hs rfl⟩
    rw [tagProblem, List.mem_ite_nil_left, List.mem_singleton, hfound]
  | _ => simp [tagProblem]

theorem mem_missingProblems {keys : List String} : p ∈ missingProblems keys entries ↔
    ∃ key ∈ keys, key ∉ Entries.keys entries ∧ p = ⟨some (Text.quoted key ++ " is a required property"), []⟩ := by
  have hmissing : ∀ key, (!Entries.has key entries) = true ↔ key ∉ Entries.keys entries := by
    intro key
    rw [Bool.not_eq_true', ← Bool.not_eq_true, Entries.has_iff_mem_keys]
  rw [missingProblems, List.mem_map]
  constructor
  · rintro ⟨key, hkey, rfl⟩
    obtain ⟨hkey, hnone⟩ := List.mem_filter.mp hkey
    exact ⟨key, hkey, (hmissing key).mp hnone, rfl⟩
  · rintro ⟨key, hkey, hnone, rfl⟩
    exact ⟨key, List.mem_filter.mpr ⟨hkey, (hmissing key).mpr hnone⟩, rfl⟩

theorem mem_formProblem {form : TextForm} {s : String} : p ∈ formProblem form s ↔ form.fits s.toList = false ∧
    p = ⟨some (Text.quoted s ++ " does not match " ++ Text.quoted form.pattern), []⟩ := by
  rw [formProblem, List.mem_ite_nil_left, List.mem_singleton, Bool.not_eq_true]

theorem mem_boundProblem {broken : Bool} {relation : String} {bound : Value} :
    p ∈ boundProblem broken v relation bound ↔
      (isNumber v = true ∧ broken = true) ∧ p = ⟨v.inspect?.map (· ++ relation ++ bound.inspect), []⟩ := by
  rw [boundProblem, List.mem_ite_nil_right, List.mem_singleton, Bool.and_eq_true]

theorem pairwise_sortedTexts (l : List String) : (l.mergeSort fun a b => decide (a ≤ b)).Pairwise (· ≤ ·) := by
  have hsorted : (l.mergeSort fun a b => decide (a ≤ b)).Pairwise fun a b => decide (a ≤ b) = true := by
    refine List.pairwise_mergeSort (fun a b c hab hbc => ?_) (fun a b => ?_) l
    · exact decide_eq_true (String.le_trans (of_decide_eq_true hab) (of_decide_eq_true hbc))
    · rw [Bool.or_eq_true, decide_eq_true_eq, decide_eq_true_eq]
      exact String.le_total a b
  exact hsorted.imp of_decide_eq_true

theorem mem_closedProblem {keys : List String} : p ∈ closedProblem keys ↔
    ∃ extra, extra ≠ [] ∧ extra.Pairwise (· ≤ ·) ∧ extra.Perm keys ∧
      p = ⟨some ("Additional properties are not allowed (" ++ ", ".intercalate (extra.map Text.quoted) ++ " " ++
        (if extra.length = 1 then "was" else "were") ++ " unexpected)"), []⟩ := by
  have hperm : (keys.mergeSort fun a b => decide (a ≤ b)).Perm keys := List.mergeSort_perm keys _
  have hsorted := pairwise_sortedTexts keys
  rw [closedProblem, List.mem_ite_nil_left, List.mem_singleton, List.isEmpty_iff]
  constructor
  · rintro ⟨hne, rfl⟩
    refine ⟨_, fun hnil => hne ?_, hsorted, hperm, ?_⟩
    · rw [hnil] at hperm
      exact hperm.nil_eq.symm
    · rw [hperm.length_eq]
  · rintro ⟨extra, hne, hextra, hkeys, rfl⟩
    have hsame : extra = keys.mergeSort fun a b => decide (a ≤ b) :=
      List.Perm.eq_of_pairwise (fun _ _ _ _ => String.le_antisymm) hextra hsorted (hkeys.trans hperm.symm)
    refine ⟨fun hnil => hne ?_, ?_⟩
    · rw [hnil] at hkeys
      exact hkeys.eq_nil
    · rw [← hsame, hkeys.length_eq]

theorem mem_problemsOfFields {fields : List (String × Schema)} : p ∈ problemsOfFields fields entries ↔
    ∃ name s u, (name, s) ∈ fields ∧ Entries.get? name entries = some u ∧
      ∃ q ∈ problems s u, q.under (.key name) = p := by
  induction fields with
  | nil => simp [problemsOfFields]
  | cons f rest ih =>
    obtain ⟨name, s⟩ := f
    rw [problemsOfFields, List.mem_append, ih]
    constructor
    · rintro (h | ⟨other, t, u, hmem, hrest⟩)
      · split at h
        · rename_i u hu
          exact ⟨name, s, u, List.mem_cons_self, hu, List.mem_map.mp h⟩
        · cases h
      · exact ⟨other, t, u, List.mem_cons_of_mem _ hmem, hrest⟩
    · rintro ⟨other, t, u, hmem, hu, hrest⟩
      rcases List.mem_cons.mp hmem with heq | hmem
      · cases heq
        rw [hu]
        exact Or.inl (List.mem_map.mpr hrest)
      · exact Or.inr ⟨other, t, u, hmem, hu, hrest⟩

theorem keys_undeclared : Entries.keys (undeclared declared entries) =
    (Entries.keys entries).filter fun key => !declared.contains key := by
  rw [Entries.keys, undeclared, Entries.keys, List.filter_map]
  rfl

theorem tells_of_mem (h : p ∈ problemsOfRule declared r v) : Tells declared r v p := by
  cases r with
  | kinds kinds =>
    obtain ⟨hnone, rfl⟩ := mem_kindProblem.mp h
    exact .itself (.kinds hnone)
  | oneOf tags =>
    obtain ⟨hnone, rfl⟩ := mem_tagProblem.mp h
    exact .itself (.oneOf hnone)
  | required keys =>
    cases v with
    | map entries =>
      obtain ⟨key, hkey, hnone, rfl⟩ := mem_missingProblems.mp h
      exact .itself (.required hkey hnone)
    | _ => cases h
  | fields fields =>
    cases v with
    | map entries =>
      obtain ⟨name, s, u, hs, hu, q, hq, rfl⟩ := mem_problemsOfFields.mp h
      exact .part (.field hs hu) hq
    | _ => cases h
  | fieldNames names =>
    cases v with
    | map entries =>
      obtain ⟨⟨key, u⟩, hmem, hp⟩ := List.mem_flatMap.mp h
      exact .name (List.mem_map_of_mem hmem) hp
    | _ => cases h
  | closed =>
    cases v with
    | map entries =>
      obtain ⟨extra, hne, hsorted, hperm, rfl⟩ := mem_closedProblem.mp h
      rw [keys_undeclared] at hperm
      exact .itself (.closed hne hsorted hperm)
    | _ => cases h
  | otherFields each =>
    cases v with
    | map entries =>
      obtain ⟨⟨name, u⟩, hmem, hp⟩ := List.mem_flatMap.mp h
      obtain ⟨q, hq, rfl⟩ := List.mem_map.mp hp
      obtain ⟨hmem, hname⟩ := List.mem_filter.mp hmem
      exact .part (.other (by simpa using hname) hmem) hq
    | _ => cases h
  | items each =>
    cases v with
    | list items =>
      obtain ⟨⟨u, i⟩, hmem, hp⟩ := List.mem_flatMap.mp h
      obtain ⟨q, hq, rfl⟩ := List.mem_map.mp hp
      exact .part (.item (List.mem_zipIdx_iff_getElem?.mp hmem)) hq
    | _ => cases h
  | fewest count =>
    cases v with
    | list items =>
      obtain ⟨hlength, hp⟩ := List.mem_ite_nil_right.mp h
      rw [List.mem_singleton.mp hp]
      exact .itself (.fewest hlength)
    | _ => cases h
  | most count =>
    cases v with
    | list items =>
      obtain ⟨hlength, hp⟩ := List.mem_ite_nil_right.mp h
      rw [List.mem_singleton.mp hp]
      exact .itself (.most hlength)
    | _ => cases h
  | shortest length =>
    cases v with
    | str s =>
      obtain ⟨hlength, hp⟩ := List.mem_ite_nil_right.mp h
      rw [List.mem_singleton.mp hp]
      exact .itself (.shortest hlength)
    | _ => cases h
  | form form =>
    cases v with
    | str s =>
      obtain ⟨hfits, rfl⟩ := mem_formProblem.mp h
      exact .itself (.form hfits)
    | _ => cases h
  | least bound =>
    obtain ⟨⟨hnumber, hbroken⟩, rfl⟩ := mem_boundProblem.mp h
    exact .itself (.least hnumber hbroken)
  | greatest bound =>
    obtain ⟨⟨hnumber, hbroken⟩, rfl⟩ := mem_boundProblem.mp h
    exact .itself (.greatest hnumber hbroken)
  | above bound =>
    obtain ⟨⟨hnumber, hbroken⟩, rfl⟩ := mem_boundProblem.mp h
    exact .itself (.above hnumber hbroken)

theorem mem_of_finding {m : Option String} (h : Finding declared r v m) : ⟨m, []⟩ ∈ problemsOfRule declared r v := by
  cases h with
  | kinds h => exact mem_kindProblem.mpr ⟨h, rfl⟩
  | oneOf h => exact mem_tagProblem.mpr ⟨h, rfl⟩
  | required hkey h => exact mem_missingProblems.mpr ⟨_, hkey, h, rfl⟩
  | closed hne hsorted hperm => exact mem_closedProblem.mpr ⟨_, hne, hsorted, keys_undeclared ▸ hperm, rfl⟩
  | fewest h => exact List.mem_ite_nil_right.mpr ⟨h, List.mem_singleton_self _⟩
  | most h => exact List.mem_ite_nil_right.mpr ⟨h, List.mem_singleton_self _⟩
  | shortest h => exact List.mem_ite_nil_right.mpr ⟨h, List.mem_singleton_self _⟩
  | form h => exact mem_formProblem.mpr ⟨h, rfl⟩
  | least hv h => exact mem_boundProblem.mpr ⟨⟨hv, h⟩, rfl⟩
  | greatest hv h => exact mem_boundProblem.mpr ⟨⟨hv, h⟩, rfl⟩
  | above hv h => exact mem_boundProblem.mpr ⟨⟨hv, h⟩, rfl⟩

theorem mem_of_leads {part : PathPart} {s : Schema} {u : Value} {m : Option String} {path : List PathPart}
    (hu : Leads declared r v part s u) (h : ⟨m, path⟩ ∈ problems s u) :
    ⟨m, part :: path⟩ ∈ problemsOfRule declared r v := by
  cases hu with
  | field hs hget => exact mem_problemsOfFields.mpr ⟨_, _, _, hs, hget, _, h, rfl⟩
  | other hd hmem =>
    refine List.mem_flatMap.mpr ⟨_, List.mem_filter.mpr ⟨hmem, ?_⟩, List.mem_map.mpr ⟨_, h, rfl⟩⟩
    simpa using hd
  | @item _ _ i _ hi =>
    exact List.mem_flatMap.mpr ⟨(u, i), List.mem_zipIdx_iff_getElem?.mpr hi, List.mem_map.mpr ⟨_, h, rfl⟩⟩

/-- A rule has no other problems than these. -/
theorem mem_problemsOfRule : p ∈ problemsOfRule declared r v ↔ Tells declared r v p := by
  refine ⟨tells_of_mem, fun h => ?_⟩
  cases h with
  | itself h => exact mem_of_finding h
  | part hu h => exact mem_of_leads hu h
  | name hkey h =>
    obtain ⟨entry, hmem, rfl⟩ := List.mem_map.mp hkey
    exact List.mem_flatMap.mpr ⟨entry, hmem, h⟩

/-! ## Paths through a schema -/

/-- The rules of a schema, those of its target for a reference. -/
def ownRules : Schema → List Rule
  | .rules body => body
  | .reference _ target => ownRules target

theorem mem_problemsOfRules {rules : List Rule} :
    p ∈ problemsOfRules declared rules v ↔ ∃ r ∈ rules, Tells declared r v p := by
  induction rules with
  | nil => simp [problemsOfRules]
  | cons r rs ih => rw [problemsOfRules, List.mem_append, ih, mem_problemsOfRule, List.exists_mem_cons_iff]

theorem mem_problems : (s : Schema) →
    (p ∈ problems s v ↔ ∃ r ∈ ownRules s, Tells (declaredFields (ownRules s)) r v p)
  | .rules _ => mem_problemsOfRules
  | .reference _ target => mem_problems target

/-- A path taken from one schema to the next, and the rules that govern the value at its end. -/
inductive Governs : Schema → Value → List PathPart → List Rule → Value → Prop
  | here {s : Schema} {v : Value} : Governs s v [] (ownRules s) v
  | part {s t : Schema} {v u w : Value} {r : Rule} {part : PathPart} {path : List PathPart} {rules : List Rule}
      (hr : r ∈ ownRules s) (hu : Leads (declaredFields (ownRules s)) r v part t u)
      (h : Governs t u path rules w) : Governs s v (part :: path) rules w

/-- A rule reports what it finds wrong with a value, or with a name in it that it holds to a schema. -/
inductive Report (declared : List String) : Rule → Value → Option String → Prop
  | itself {r : Rule} {v : Value} {m : Option String} (h : Finding declared r v m) : Report declared r v m
  | name {names : Schema} {entries : Entries Value} {key : String} {r : Rule} {m : Option String}
      (hkey : key ∈ Entries.keys entries) (hr : r ∈ ownRules names)
      (h : Finding (declaredFields (ownRules names)) r (.str key) m) :
      Report declared (.fieldNames names) (.map entries) m

/-- A text has no parts, so whatever is wrong is wrong with the text itself. -/
theorem mem_problems_str {s : Schema} {text : String} : p ∈ problems s (.str text) ↔
    p.path = [] ∧ ∃ r ∈ ownRules s, Finding (declaredFields (ownRules s)) r (.str text) p.message := by
  rw [mem_problems]
  constructor
  · rintro ⟨r, hr, h⟩
    cases h with
    | itself h => exact ⟨rfl, r, hr, h⟩
    | part hu => cases hu
  · rintro ⟨hpath, r, hr, h⟩
    obtain ⟨m, path⟩ := p
    cases hpath
    exact ⟨r, hr, .itself h⟩

/-- The problems of a value are what the rules report that govern it and its parts. -/
theorem mem_problems_iff {s : Schema} {path : List PathPart} {m : Option String} : ⟨m, path⟩ ∈ problems s v ↔
    ∃ rules w, Governs s v path rules w ∧ ∃ r ∈ rules, Report (declaredFields rules) r w m := by
  induction path generalizing s v with
  | nil =>
    constructor
    · intro h
      obtain ⟨r, hr, htells⟩ := (mem_problems s).mp h
      refine ⟨_, v, .here, r, hr, ?_⟩
      cases htells with
      | itself hfinding => exact .itself hfinding
      | name hkey hnames =>
        obtain ⟨-, r, hr, hfinding⟩ := mem_problems_str.mp hnames
        exact .name hkey hr hfinding
    · rintro ⟨_, _, ⟨⟩, r, hr, hreport⟩
      refine (mem_problems s).mpr ⟨r, hr, ?_⟩
      cases hreport with
      | itself hfinding => exact .itself hfinding
      | name hkey hown hfinding => exact .name hkey (mem_problems_str.mpr ⟨rfl, _, hown, hfinding⟩)
  | cons part rest ih =>
    constructor
    · intro h
      obtain ⟨r, hr, htells⟩ := (mem_problems s).mp h
      -- A name is a text, so no path goes on behind it.
      cases htells with
      | part hu hpart =>
        obtain ⟨rules, w, hgoverns, hreport⟩ := ih.mp hpart
        exact ⟨rules, w, .part hr hu hgoverns, hreport⟩
      | name hkey hnames => cases (mem_problems_str.mp hnames).1
    · rintro ⟨rules, w, ⟨⟩, hreport⟩
      rename_i hr hu hgoverns
      exact (mem_problems s).mpr ⟨_, hr, .part hu (ih.mpr ⟨rules, w, hgoverns, hreport⟩)⟩

theorem part?_of_leads {part : PathPart} {t : Schema} {u : Value} (hk : v.isKeyed = true)
    (h : Leads declared r v part t u) : v.part? part = some u := by
  cases h with
  | field _ hget => exact hget
  | other _ hmem => exact Entries.get?_of_mem (Value.isKeyed_map.mp hk).1 hmem
  | item hi => exact hi

theorem follow?_of_governs {s : Schema} {path : List PathPart} {rules : List Rule} {w : Value}
    (hk : v.isKeyed = true) (h : Governs s v path rules w) : v.follow? path = some w := by
  induction h with
  | here => rfl
  | part _ hu _ ih =>
    have hpart := part?_of_leads hk hu
    rw [Value.follow?, hpart, Option.bind_some]
    exact ih (Value.isKeyed_of_part? hk hpart)

end Schema

/-! ## Order -/

namespace Problem

/-- A path whose texts come after those of another, compared text by text, is not put before it. -/
theorem pathLe_iff {a b : List String} : pathLe a b = true ↔ ¬List.Lex (· < ·) b a := by
  induction a generalizing b with
  | nil => simp [pathLe]
  | cons x xs ih =>
    cases b with
    | nil => simp [pathLe]
    | cons y ys =>
      rw [pathLe, List.cons_lex_cons_iff, not_or]
      by_cases hxy : x = y
      · rw [if_pos hxy, hxy, ih]
        exact ⟨fun h => ⟨String.lt_irrefl y, fun hlex => h hlex.2⟩, fun h hlex => h.2 ⟨rfl, hlex⟩⟩
      · rw [if_neg hxy, decide_eq_true_eq]
        refine ⟨fun h => ⟨String.lt_asymm h, fun hlex => hxy hlex.1.symm⟩, fun h => ?_⟩
        exact Classical.byContradiction fun hlt =>
          hxy (String.le_antisymm (String.not_lt.mp h.1) (String.not_lt.mp hlt))

theorem pathLe_trans {a b c : List String} (hab : pathLe a b = true) (hbc : pathLe b c = true) : pathLe a c = true := by
  rw [pathLe_iff] at hab hbc ⊢
  exact @List.le_trans String _ _ _ _ a b c hab hbc

theorem pathLe_total (a b : List String) : (pathLe a b || pathLe b a) = true := by
  rw [Bool.or_eq_true, pathLe_iff, pathLe_iff]
  exact @List.le_total String _ _ a b

theorem pairwise_inPathOrder (l : List Problem) :
    (inPathOrder l).Pairwise fun p q => ¬List.Lex (· < ·) q.pathTexts p.pathTexts := by
  have hsorted : (inPathOrder l).Pairwise fun p q => pathLe p.pathTexts q.pathTexts = true :=
    List.pairwise_mergeSort (fun p q r => @pathLe_trans p.pathTexts q.pathTexts r.pathTexts)
      (fun p q => pathLe_total p.pathTexts q.pathTexts) l
  exact hsorted.imp pathLe_iff.mp

theorem mem_inPathOrder {p : Problem} {l : List Problem} : p ∈ inPathOrder l ↔ p ∈ l := List.mem_mergeSort

end Problem

/-! ## Configurations -/

open Schema

/-- What is said of a value that is no mapping, or of a part of one by a rule of the schema. -/
inductive Said : Value → List PathPart → Value → Option String → Prop
  | notAMapping {v : Value} (h : ∀ entries, v ≠ .map entries) : Said v [] v (some "shader config must be a mapping")
  | reported {entries : Entries Value} {path : List PathPart} {rules : List Rule} {w : Value} {r : Rule} {m : Option String}
      (hw : Governs (.rules config.body) (.map entries) path rules w) (hr : r ∈ rules)
      (h : Report (declaredFields rules) r w m) : Said (.map entries) path w m

theorem judge_of_not_map {v : Value} (h : ∀ entries, v ≠ .map entries) : judge v = .notAMapping := by
  cases v with
  | map entries => exact absurd rfl (h entries)
  | _ => rfl

theorem judge_map (entries : Entries Value) : (judge (.map entries)).problems = configProblems entries ∧
    ((judge (.map entries)).ok = true ↔ configProblems entries = []) := by
  rw [judge_map_eq]
  by_cases h : configProblems entries = []
  · rw [if_pos h, h]
    exact ⟨rfl, iff_of_true rfl rfl⟩
  · rw [if_neg h]
    exact ⟨rfl, iff_of_false Bool.false_ne_true h⟩

theorem mem_judge_map {entries : Entries Value} {p : Problem} :
    p ∈ (judge (.map entries)).problems ↔ p ∈ problems (.rules config.body) (.map entries) := by
  rw [(judge_map entries).1, configProblems, Problem.mem_inPathOrder]

/-- There are no problems exactly when a value passes, they come in the order of the texts of their
paths, and they are what is said of the values that their paths lead to. -/
theorem judge_problems {v : Value} (hk : v.isKeyed = true) :
    ((judge v).problems = [] ↔ (judge v).ok = true) ∧
      (judge v).problems.Pairwise (fun p q => ¬List.Lex (· < ·) q.pathTexts p.pathTexts) ∧
      ∀ p, p ∈ (judge v).problems ↔ ∃ w, v.follow? p.path = some w ∧ Said v p.path w p.message := by
  by_cases hmap : ∃ entries, v = .map entries
  · obtain ⟨entries, rfl⟩ := hmap
    obtain ⟨hproblems, hok⟩ := judge_map entries
    refine ⟨?_, ?_, fun p => ?_⟩
    · rw [hproblems, hok]
    · rw [hproblems]
      exact Problem.pairwise_inPathOrder _
    · rw [mem_judge_map, mem_problems_iff]
      constructor
      · rintro ⟨rules, w, hw, r, hr, hreport⟩
        exact ⟨w, follow?_of_governs hk hw, .reported hw hr hreport⟩
      · rintro ⟨w, -, hsaid⟩
        obtain ⟨m, path⟩ := p
        cases hsaid with
        | notAMapping hnot => exact absurd rfl (hnot entries)
        | reported hw hr hreport => exact ⟨_, w, hw, _, hr, hreport⟩
  · have hnot : ∀ entries, v ≠ .map entries := fun entries hv => hmap ⟨entries, hv⟩
    rw [judge_of_not_map hnot]
    refine ⟨iff_of_false (List.cons_ne_nil _ _) Bool.false_ne_true, List.pairwise_singleton _ _, fun p => ?_⟩
    rw [Verdict.problems, List.mem_singleton]
    constructor
    · rintro rfl
      exact ⟨v, rfl, .notAMapping hnot⟩
    · rintro ⟨w, -, hsaid⟩
      obtain ⟨m, path⟩ := p
      cases hsaid with
      | notAMapping => rfl
      | reported => exact absurd rfl (hnot _)

end ShaderLoom
