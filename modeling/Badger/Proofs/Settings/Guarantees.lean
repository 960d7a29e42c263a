import Badger.Proofs.Settings.Decoding
import Badger.Settings.Load

/-!
# What settings guarantee

Settings that were loaded can be used as they are: every limit is positive and fits a machine word,
so that the session gets the very limits that were asked for. What a document does not mention is as
for a user who chose nothing, and a limit is complained of only if the document gives it.

## Main definitions

* `Settings.Usable`: settings whose limits count
* `Settings.Key`: the keys of a document of settings
* `Settings.Sets`: giving a key a value

## Main statements

* `Settings.standard_usable`: the settings of a user who chose nothing can be used
* `Decoder.keeps_settings`: a document changes settings by giving values to the keys that it has
* `Settings.load_usable`: **settings that were loaded can be used**
* `Settings.ofText_agree`: **keys that are left out change nothing**
* `Settings.ofText_invalid`: **an error names the limits that are not positive**, all of them given
  by the document
-/

namespace Badger

/-! ## Limits -/

namespace Limit

theorem mem_all (l : Limit) : l ∈ all := by cases l <;> decide

/-- **The wording tells the limit.** -/
theorem message_injective : Function.Injective message := by
  intro l l' h
  cases l <;> cases l' <;> first | rfl | exact absurd h (by decide)

end Limit

namespace Settings

/-- **The faults** are the limits that are not positive. -/
theorem mem_faults {s : Settings} {l : Limit} : l ∈ s.faults ↔ s.limit l ≤ 0 := by
  simp [faults, Limit.mem_all]

theorem limit_pos_of_faults_eq_nil {s : Settings} (h : s.faults = []) (l : Limit) :
    0 < s.limit l := by
  have hl : l ∉ s.faults := h ▸ List.not_mem_nil
  rw [mem_faults] at hl
  exact Int.not_le.mp hl

/-- **Settings whose limits count**: they are positive and fit 64 bits with a sign. -/
def Usable (s : Settings) : Prop := ∀ l, 0 < s.limit l ∧ s.limit l ≤ Yaml.Scalar.maxSigned

/-- A user who chose nothing has limits that count. -/
theorem standard_usable (home : Text) : (standard home).Usable := by
  intro l
  cases l <;> simp [standard, limit, defaultScopeDepth, defaultCallDepth, Yaml.Scalar.maxSigned]

/-- The home directory has nothing to do with limits. -/
@[simp] theorem limit_expandHome (home : Text) (s : Settings) (l : Limit) :
    (s.expandHome home).limit l = s.limit l := by
  cases l <;> rfl

/-- **A session gets the limits and switches that were chosen.** -/
theorem Usable.options_eq {s : Settings} (h : s.Usable) :
    s.options = ⟨s.scopeDepth.toNat, s.callDepth.toNat, s.echoReturns, s.strict⟩ := by
  have hscope : 0 < s.scopeDepth := (h .scopeDepth).1
  have hcall : 0 < s.callDepth := (h .callDepth).1
  rw [options, Options.withScopeDepth, if_pos hscope, Options.withCallDepth, if_pos hcall]

/-! ## Keys -/

/-- **A key of a document of settings.** -/
inductive Key where
  | limit (l : Limit)
  | echoReturns
  | strict
  | promptName
  | historyFile
  | showSnippets
deriving DecidableEq

/-- How a key is written. -/
def Key.name : Key → Text
  | .limit l => l.key
  | .echoReturns => utf8 "echo_returns"
  | .strict => utf8 "strict_lexer"
  | .promptName => utf8 "prompt"
  | .historyFile => utf8 "history_file"
  | .showSnippets => utf8 "show_snippet"

/-- Settings that agree on what a key stands for. -/
def Agree (s s' : Settings) : Key → Prop
  | .limit l => s.limit l = s'.limit l
  | .echoReturns => s.echoReturns = s'.echoReturns
  | .strict => s.strict = s'.strict
  | .promptName => s.promptName = s'.promptName
  | .historyFile => s.historyFile = s'.historyFile
  | .showSnippets => s.showSnippets = s'.showSnippets

/-- **Giving a key a value.** A limit that is given fits 64 bits with a sign. -/
inductive Sets (s : Settings) : Key → Settings → Prop
  | limit (l : Limit) (n : Int) : n ≤ Yaml.Scalar.maxSigned → Sets s (.limit l) (s.setLimit l n)
  | echoReturns (b : Bool) : Sets s .echoReturns { s with echoReturns := b }
  | strict (b : Bool) : Sets s .strict { s with strict := b }
  | promptName (t : Text) : Sets s .promptName { s with promptName := t }
  | historyFile (t : Text) : Sets s .historyFile { s with historyFile := t }
  | showSnippets (b : Bool) : Sets s .showSnippets { s with showSnippets := b }

theorem setLimit_limit (s : Settings) (l : Limit) : s.setLimit l (s.limit l) = s := by
  cases l <;> rfl

theorem limit_setLimit (s : Settings) (l k : Limit) (n : Int) :
    (s.setLimit l n).limit k = if k = l then n else s.limit k := by
  cases l <;> cases k <;> rfl

/-- Giving one key a value leaves the others as they are. -/
theorem Sets.agree {s₀ s s' : Settings} {k k' : Key} (h : s.Sets k s') (hne : k' ≠ k)
    (hagree : s₀.Agree s k') : s₀.Agree s' k' := by
  cases h with
  | limit l n _ =>
      cases k' with
      | limit l' =>
          have hl : l' ≠ l := fun hl => hne (congrArg Key.limit hl)
          rw [Agree, limit_setLimit, if_neg hl]
          exact hagree
      | _ => cases l <;> exact hagree
  | _ => cases k' <;> first | exact absurd rfl hne | exact hagree

end Settings

/-! ## What a document can set -/

namespace Decoder

variable {d : Yaml.Document}

theorem le_of_truncate?_eq_some {x : Float} {n : Int} (h : truncate? x = some n) :
    n ≤ Yaml.Scalar.maxSigned := by
  have hmin : Yaml.Scalar.minSigned ≤ Yaml.Scalar.maxSigned := by decide
  have hfits : ∀ m : Int, (if Yaml.Scalar.minSigned ≤ m && m ≤ Yaml.Scalar.maxSigned then some m
      else some Yaml.Scalar.minSigned) = some n → n ≤ Yaml.Scalar.maxSigned := by
    intro m hm
    split at hm
    next hle =>
      rw [Bool.and_eq_true, decide_eq_true_iff, decide_eq_true_iff] at hle
      exact Option.some.inj hm ▸ hle.2
    next => exact Option.some.inj hm ▸ hmin
  unfold truncate? at h
  split at h
  · split at h
    · exact hfits _ h
    · exact Option.some.inj h ▸ hmin
  · cases h

variable {P : Settings → Prop}

/-- A limit is cut to fit, or not accepted. -/
theorem keeps_limit {l : Limit}
    (hset : ∀ s n, n ≤ Yaml.Scalar.maxSigned → P s → P (s.setLimit l n)) :
    Keeps d P (limit l) := by
  refine .part (fun s => s.setLimit_limit l) fun s meaning value n haccept hs => hset s n ?_ hs
  split at haccept
  · split at haccept
    next hle => exact Option.some.inj haccept ▸ hle
    next => cases haccept
  · exact le_of_truncate?_eq_some haccept
  · cases haccept

/-- **A document changes settings by giving values to the keys that it has.** -/
theorem keeps_settings
    (hsets : ∀ s k s', d.HasKey (Settings.Key.name k) → s.Sets k s' → P s → P s') :
    Keeps d P settings := by
  refine .mapping fun name decode hmem _ => ?_
  simp only [List.mem_cons, Prod.mk.injEq, List.not_mem_nil, or_false] at hmem
  rcases hmem with ⟨rfl, rfl⟩ | ⟨rfl, rfl⟩ | ⟨rfl, rfl⟩
  all_goals
    refine .mapping fun name decode hmem hkey => ?_
    simp only [List.mem_cons, Prod.mk.injEq, List.not_mem_nil, or_false] at hmem
  · rcases hmem with ⟨rfl, rfl⟩ | ⟨rfl, rfl⟩ | ⟨rfl, rfl⟩ | ⟨rfl, rfl⟩
    · exact keeps_limit fun s n hn => hsets s (.limit .scopeDepth) _ hkey (.limit _ n hn)
    · exact keeps_limit fun s n hn => hsets s (.limit .callDepth) _ hkey (.limit _ n hn)
    · exact .part (fun _ => rfl) fun s _ _ b _ => hsets s .echoReturns _ hkey (.echoReturns b)
    · exact .part (fun _ => rfl) fun s _ _ b _ => hsets s .strict _ hkey (.strict b)
  · rcases hmem with ⟨rfl, rfl⟩ | ⟨rfl, rfl⟩
    · exact .part (fun _ => rfl) fun s _ _ t _ => hsets s .promptName _ hkey (.promptName t)
    · exact .part (fun _ => rfl) fun s _ _ t _ => hsets s .historyFile _ hkey (.historyFile t)
  · obtain ⟨rfl, rfl⟩ := hmem
    exact .part (fun _ => rfl) fun s _ _ b _ => hsets s .showSnippets _ hkey (.showSnippets b)

end Decoder

/-! ## Loaded settings -/

namespace Settings

variable {home name text : Text} {d : Yaml.Document}

/-- What is decoded from a document, on top of the settings of a user who chose nothing. -/
def Decoded (home : Text) (d : Yaml.Document) (s : Settings) : Prop :=
  ∃ decoding, (Decoder.settings d (standard home) d.root).run {} = .ok (s, decoding)

namespace Decoded

variable {s : Settings}

theorem of_sets {P : Settings → Prop} (h : Decoded home d s) (hstandard : P (standard home))
    (hsets : ∀ s k s', d.HasKey (Settings.Key.name k) → s.Sets k s' → P s → P s') : P s := by
  obtain ⟨decoding, hrun⟩ := h
  exact Decoder.keeps_settings hsets _ _ hstandard .root _ _ _ hrun

/-- Keys that the document does not have. -/
theorem agree (h : Decoded home d s) {k : Key} (hk : ¬d.HasKey k.name) :
    (standard home).Agree s k := by
  refine h.of_sets (P := ((standard home).Agree · k)) (by cases k <;> rfl)
    fun s k' s' hkey hsets hagree => ?_
  have hne : k ≠ k' := by
    rintro rfl
    exact hk hkey
  exact hsets.agree hne hagree

/-- A limit fits 64 bits with a sign. -/
theorem limit_le (h : Decoded home d s) (l : Limit) : s.limit l ≤ Yaml.Scalar.maxSigned := by
  refine h.of_sets (P := fun s => s.limit l ≤ Yaml.Scalar.maxSigned) (standard_usable home l).2
    fun s k s' _ hsets hle => ?_
  cases hsets with
  | limit l' n hn =>
      rw [limit_setLimit]
      split
      · exact hn
      · exact hle
  | _ => cases l <;> exact hle

end Decoded

theorem checked_eq_ok {s s' : Settings} (h : s.checked home name = .ok s') :
    s.faults = [] ∧ s' = s.expandHome home := by
  unfold checked at h
  split at h
  next hfaults => exact ⟨List.isEmpty_iff.mp hfaults, (Except.ok.inj h).symm⟩
  next => cases h

theorem checked_eq_error {s : Settings} {e : SettingsError} (h : s.checked home name = .error e) :
    s.faults ≠ [] ∧ e = .invalid name s.faults := by
  unfold checked at h
  split at h
  next => cases h
  next hfaults => exact ⟨fun hnil => hfaults (List.isEmpty_iff.mpr hnil), (Except.error.inj h).symm⟩

/-- **What can come of a text.** There is no document, there is one and its limits are looked at,
or something else is wrong. -/
theorem ofText_cases (home name text : Text) :
    Yaml.Document.read text = .ok none ∧ ofText home name text = .ok (standard home) ∨
      (∃ d s, Yaml.Document.read text = .ok (some d) ∧ Decoded home d s ∧
        ofText home name text = s.checked home name) ∨
      ∃ e, ofText home name text = .error e ∧ ∀ file ls, e ≠ .invalid file ls := by
  unfold ofText
  split
  · exact .inr (.inr ⟨_, rfl, nofun⟩)
  next hread => exact .inl ⟨hread, rfl⟩
  next d hread =>
    split
    · exact .inr (.inr ⟨_, rfl, nofun⟩)
    next s decoding hrun =>
      split
      · exact .inr (.inl ⟨d, s, hread, ⟨decoding, hrun⟩, rfl⟩)
      · exact .inr (.inr ⟨_, rfl, nofun⟩)

/-- **How the settings of a text come about.** -/
theorem ofText_eq_ok {s : Settings} (h : ofText home name text = .ok s) :
    Yaml.Document.read text = .ok none ∧ s = standard home ∨
      ∃ d s₀, Yaml.Document.read text = .ok (some d) ∧ Decoded home d s₀ ∧ s₀.faults = [] ∧
        s = s₀.expandHome home := by
  rcases ofText_cases home name text with ⟨hread, hok⟩ | ⟨d, s₀, hread, hs₀, hok⟩ | ⟨e, he, -⟩
  · exact .inl ⟨hread, Except.ok.inj (h.symm.trans hok)⟩
  · exact .inr ⟨d, s₀, hread, hs₀, checked_eq_ok (hok.symm.trans h)⟩
  · cases h.symm.trans he

/-- **Keys that are left out change nothing.** -/
theorem ofText_agree {s : Settings} (hread : Yaml.Document.read text = .ok (some d))
    (h : ofText home name text = .ok s) {k : Key} (hk : ¬d.HasKey k.name) :
    ((standard home).expandHome home).Agree s k := by
  rcases ofText_eq_ok h with ⟨hnone, -⟩ | ⟨d', s₀, hread', hdecoded, -, rfl⟩
  · cases hread.symm.trans hnone
  · cases hread.symm.trans hread'
    have hagree := hdecoded.agree hk
    cases k with
    | limit l =>
        rw [Agree, limit_expandHome, limit_expandHome]
        exact hagree
    | historyFile => exact congrArg (Path.expandHome home) hagree
    | _ => exact hagree

theorem ofText_usable {s : Settings} (h : ofText home name text = .ok s) : s.Usable := by
  rcases ofText_eq_ok h with ⟨-, rfl⟩ | ⟨d, s₀, -, hdecoded, hfaults, rfl⟩
  · exact standard_usable home
  · intro l
    rw [limit_expandHome]
    exact ⟨limit_pos_of_faults_eq_nil hfaults l, hdecoded.limit_le l⟩

/-- **Settings that were loaded can be used.** -/
theorem load_usable {fs : Files} {asked environment : Text} {s : Settings}
    (h : load fs home asked environment = .ok s) : s.Usable := by
  unfold load at h
  split at h
  · exact Except.ok.inj h ▸ standard_usable home
  · split at h
    · cases h
    · cases h
    · exact ofText_usable h

/-- **An error names its limits.** Settings are refused for their limits only if the document has
keys for them, and just those are named that are not positive. -/
theorem ofText_invalid {file : Text} {ls : List Limit}
    (h : ofText home name text = .error (.invalid file ls)) :
    file = name ∧ ls ≠ [] ∧ ∃ d s, Yaml.Document.read text = .ok (some d) ∧ Decoded home d s ∧
      ∀ l, (l ∈ ls ↔ s.limit l ≤ 0) ∧ (l ∈ ls → d.HasKey l.key) := by
  rcases ofText_cases home name text with ⟨-, hok⟩ | ⟨d, s, hread, hs, hok⟩ | ⟨e, he, hother⟩
  · cases h.symm.trans hok
  · obtain ⟨hfaults, hnamed⟩ := checked_eq_error (hok.symm.trans h)
    cases hnamed
    refine ⟨rfl, hfaults, d, s, hread, hs, fun l => ⟨mem_faults, fun hl => ?_⟩⟩
    -- the limits of a user who chose nothing are positive
    refine Classical.byContradiction fun hkey => ?_
    have hagree : (standard home).limit l = s.limit l := hs.agree (k := .limit l) hkey
    have hpos := (standard_usable home l).1
    rw [mem_faults] at hl
    omega
  · exact absurd (Except.error.inj (he.symm.trans h)) (hother file ls)

end Settings

end Badger
