import Mathlib.Data.List.Forall2
import PhpAudit.Cli.Settings
import PhpAudit.Proofs.Files.GlobMeaning
import PhpAudit.Rule.Builtin

/-!
# Which settings are refused, and what a scan runs with

`Settings.faults` lists everything that is wrong with a configuration and the arguments of a scan, kind by kind.
Settings are refused exactly if there is a fault, and the first one is reported (`reports_resolve`): a check that
reports the first of some faults, followed by one that reports the first of others, reports the first of them all
(`Reports.bind`). What the configuration is read for a second time has passed its check by then.

Which patterns are compiled is up to the engine. Of it no more is used than that it compiles short patterns, as the
default ones are (`Glob.Engine.TakesShort`), and it does refuse some without a bracket (`resolve_of_oversized`).
-/

namespace PhpAudit

/-! ## Checks in a row -/

/-- A computation fails exactly if there is a fault, with the first one as its error. -/
def Reports {ε α : Type} (x : Except ε α) (faults : List ε) : Prop :=
  ∀ e, x = .error e ↔ faults.head? = some e

section Reports
variable {ε α β : Type} {x : Except ε α} {faults : List ε}

theorem reports_ok (a : α) : Reports (.ok a : Except ε α) [] := by
  intro e
  simp

theorem Reports.eq_nil (h : Reports x faults) {a : α} (hx : x = .ok a) : faults = [] := by
  cases faults with
  | nil => rfl
  | cons e rest =>
    rw [(h e).2 rfl] at hx
    cases hx

theorem Reports.exists_error_iff (h : Reports x faults) : (∃ e, x = .error e) ↔ faults ≠ [] := by
  unfold Reports at h
  cases faults <;> simp [h]

/-- The faults of a check come before those of what follows it. -/
theorem Reports.bind (h : Reports x faults) {f : α → Except ε β} {rest : List ε}
    (hf : ∀ a, x = .ok a → Reports (f a) rest) : Reports (x >>= f) (faults ++ rest) := by
  intro e
  cases x with
  | error e' =>
    have hhead := (h e').1 rfl
    change Except.error e' = Except.error e ↔ _
    rw [List.head?_append, hhead, Option.some_or, Except.error.injEq, Option.some.injEq]
  | ok a =>
    rw [h.eq_nil rfl, List.nil_append]
    exact hf a rfl e

/-- Reading a list fails at the first element that cannot be read. -/
theorem reports_mapM {f : β → Except ε α} {fault? : β → Option ε}
    (hf : ∀ b, Reports (f b) (fault? b).toList) (bs : List β) :
    Reports (bs.mapM f) (bs.filterMap fault?) := by
  induction bs with
  | nil => exact reports_ok []
  | cons b bs ih =>
    have hsplit : (b :: bs).filterMap fault? = (fault? b).toList ++ (bs.filterMap fault? ++ []) := by
      cases h : fault? b <;> simp [h]
    rw [List.mapM_cons, hsplit]
    exact (hf b).bind fun a _ => ih.bind fun as _ => reports_ok (a :: as)

theorem exists_of_bind_eq_ok {f : α → Except ε β} {b : β} (h : x >>= f = .ok b) :
    ∃ a, x = .ok a ∧ f a = .ok b := by
  cases x with
  | error e => cases h
  | ok a => exact ⟨a, rfl, h⟩

theorem forall₂_of_mapM {f : β → Except ε α} {bs : List β} {as : List α} (h : bs.mapM f = .ok as) :
    List.Forall₂ (fun b a => f b = .ok a) bs as := by
  induction bs generalizing as with
  | nil =>
    cases h
    exact .nil
  | cons b bs ih =>
    rw [List.mapM_cons] at h
    obtain ⟨a, hb, h⟩ := exists_of_bind_eq_ok h
    obtain ⟨rest, hbs, h⟩ := exists_of_bind_eq_ok h
    cases h
    exact .cons hb (ih hbs)

end Reports

/-! ## Patterns, severities and ids -/

namespace Glob

/-- A pattern that ends in a slash is one for all that lies below. -/
def covering (pattern : String) : String :=
  if Text.endsWith pattern '/' then pattern ++ "**" else pattern

/-- The engine does not compile a pattern of paths to leave out. -/
def Engine.Refuses (engine : Engine) (pattern : String) : Prop :=
  (engine (partsOf (covering pattern).toList)).isSome = true

instance (engine : Engine) (pattern : String) : Decidable (engine.Refuses pattern) :=
  inferInstanceAs (Decidable (_ = true))

/-- Why a pattern of paths to leave out is refused: it has a bracket, or the engine gives a reason. -/
def refusal? (engine : Engine) (pattern : String) : Option GlobError :=
  if '[' ∈ pattern.toList ∨ ']' ∈ pattern.toList then some .characterClass
  else (engine (partsOf (covering pattern).toList)).map .notCompiled

theorem refusal?_eq_none_iff (engine : Engine) (pattern : String) :
    refusal? engine pattern = none ↔
      ¬('[' ∈ pattern.toList ∨ ']' ∈ pattern.toList ∨ engine.Refuses pattern) := by
  unfold refusal? Engine.Refuses
  rw [← or_assoc]
  split
  · next h => simp [h]
  · next h => simp [h]

theorem mem_covering_iff {c : Char} (hc : c ≠ '*') (pattern : String) :
    c ∈ (covering pattern).toList ↔ c ∈ pattern.toList := by
  unfold covering
  split
  · simp [hc]
  · rfl

theorem reports_parseExclude (engine : Engine) (pattern : String) :
    Reports (parseExclude engine pattern) (refusal? engine pattern).toList := by
  have hcovering : parseExclude engine pattern = parse engine (covering pattern) := rfl
  rw [hcovering]
  unfold refusal?
  simp only [← mem_covering_iff (c := '[') (by decide) pattern, ← mem_covering_iff (c := ']') (by decide) pattern]
  rcases read_cases (covering pattern) with ⟨hread, hbracket⟩ | ⟨hread, hopen, hclose⟩
  · have hparse : parse engine (covering pattern) = .error .characterClass := by
      unfold parse
      rw [hread]
      rfl
    rw [if_pos hbracket, hparse]
    intro e
    simp
  · rw [if_neg (not_or.2 ⟨hopen, hclose⟩), parse_of_read engine hread]
    intro e
    unfold Engine.compile
    cases engine (partsOf (covering pattern).toList) <;> simp

theorem length_partsOf_le (cs : List Char) : (partsOf cs).length ≤ cs.length := by
  fun_induction partsOf cs with
  | case1 => exact Nat.le_refl _
  | case2 cs ih => simp only [List.length_cons]; omega
  | case3 cs _ ih => simp only [List.length_cons]; omega
  | case4 cs ih => simp only [List.length_cons]; omega
  | case5 c cs _ _ _ ih => simp only [List.length_cons]; omega

/-- An engine that compiles short patterns refuses long ones only. -/
theorem Engine.TakesShort.length_of_refuses {engine : Engine} (hengine : engine.TakesShort) {pattern : String}
    (h : engine.Refuses pattern) : shortLength < pattern.toList.length + 2 := by
  by_contra hshort
  have hcovering : (covering pattern).toList.length ≤ pattern.toList.length + 2 := by
    unfold covering
    split <;> simp
  have hlength := length_partsOf_le (covering pattern).toList
  unfold Refuses at h
  rw [hengine _ (by omega)] at h
  cases h

theorem Engine.TakesShort.exists_parseExclude {engine : Engine} (hengine : engine.TakesShort) {pattern : String}
    (hopen : '[' ∉ pattern.toList) (hclose : ']' ∉ pattern.toList)
    (hshort : pattern.toList.length + 2 ≤ shortLength) : ∃ p, parseExclude engine pattern = .ok p := by
  have hnone : refusal? engine pattern = none := by
    rw [refusal?_eq_none_iff]
    rintro (h | h | h)
    · exact hopen h
    · exact hclose h
    · exact absurd (hengine.length_of_refuses h) (Nat.not_lt.2 hshort)
  have hreports := reports_parseExclude engine pattern
  rw [hnone] at hreports
  cases hparse : parseExclude engine pattern with
  | error e => simpa using (hreports e).1 hparse
  | ok p => exact ⟨p, rfl⟩

end Glob

namespace Severity

/-- The words for severities. -/
def words : List String := ["info", "low", "medium", "high", "critical", "warning"]

/-- A text names a severity, in any letter case. -/
def IsNamed (word : String) : Prop := Text.lower word ∈ words

instance (word : String) : Decidable (IsNamed word) :=
  inferInstanceAs (Decidable (_ ∈ _))

theorem exists_parse_iff (word : String) : (∃ s, parse word = .ok s) ↔ IsNamed word := by
  unfold parse IsNamed words
  split <;> simp_all

end Severity

theorem Catalog.contains_iff (c : Catalog) (id : String) : c.contains id = true ↔ id ∈ c.ids := by
  simp [contains, ids]

namespace Config

variable {catalog : Catalog} {config : Config}

/-- The faults of a configuration: unknown rules, a threshold that is no severity, patterns that are refused. -/
def faults (config : Config) (engine : Glob.Engine) (catalog : Catalog) : List ConfigError :=
  (config.disabled.filter (· ∉ catalog.ids)).map .unknownRule ++
    ((config.failOn.filter fun word => ¬ Severity.IsNamed word).map fun _ => .badSeverity).toList ++
    config.exclude.filterMap fun pattern => (Glob.refusal? engine pattern).map (.badPattern pattern)

theorem reports_checkIds (catalog : Catalog) (fault : String → ConfigError) (ids : List String) :
    Reports (checkIds catalog fault ids) ((ids.filter (· ∉ catalog.ids)).map fault) := by
  have hunknown : (fun id => !catalog.contains id) = fun id => decide (id ∉ catalog.ids) := by
    funext id
    simp only [decide_not, ← Catalog.contains_iff, Bool.decide_eq_true]
  intro e
  unfold checkIds
  rw [hunknown, List.head?_map, List.head?_filter]
  cases ids.find? fun id => decide (id ∉ catalog.ids) <;> simp

theorem reports_threshold (config : Config) :
    Reports config.threshold
      ((config.failOn.filter fun word => ¬ Severity.IsNamed word).map fun _ => .badSeverity).toList := by
  intro e
  unfold threshold
  cases config.failOn with
  | none => simp
  | some word =>
    have hnamed := Severity.exists_parse_iff word
    cases hparse : Severity.parse word <;> simp_all [Option.filter_some]

theorem reports_patterns (config : Config) (engine : Glob.Engine) :
    Reports (config.patterns engine)
      (config.exclude.filterMap fun pattern => (Glob.refusal? engine pattern).map (.badPattern pattern)) := by
  refine reports_mapM (fun pattern => ?_) config.exclude
  have hparse := Glob.reports_parseExclude engine pattern
  unfold Reports at hparse ⊢
  intro e
  cases hglob : Glob.parseExclude engine pattern <;> cases hcause : Glob.refusal? engine pattern <;> simp_all

theorem forall₂_patterns (config : Config) {engine : Glob.Engine} {patterns : List Glob}
    (h : config.patterns engine = .ok patterns) :
    List.Forall₂ (fun p g => Glob.parseExclude engine p = .ok g) config.exclude patterns := by
  refine (forall₂_of_mapM h).imp fun pattern glob hglob => ?_
  split at hglob
  · next hparse =>
    cases hglob
    exact hparse
  · cases hglob

theorem reports_validate (config : Config) (engine : Glob.Engine) (catalog : Catalog) :
    Reports (config.validate engine catalog) (config.faults engine catalog) := by
  have h := (reports_checkIds catalog .unknownRule config.disabled).bind fun _ _ =>
    (reports_threshold config).bind fun _ _ => (reports_patterns config engine).bind fun _ _ => reports_ok ()
  rw [List.append_nil, ← List.append_assoc] at h
  exact h

end Config

/-! ## Settings -/

namespace Settings

/-- Everything that is wrong with the settings of a scan: the faults of the configuration, then unknown rules
on the command line. -/
def faults (engine : Glob.Engine) (args : ScanArgs) (config : Config) (catalog : Catalog) :
    List ConfigError :=
  config.faults engine catalog ++ (args.disabled.filter (· ∉ catalog.ids)).map .unknownDisabledRule

variable {engine : Glob.Engine} {args : ScanArgs} {config : Config} {catalog : Catalog}

/-- What has passed its check has no faults when it is read again. -/
theorem reports_resolve (engine : Glob.Engine) (args : ScanArgs) (config : Config) (catalog : Catalog) :
    Reports (resolve engine args config catalog) (faults engine args config catalog) := by
  refine (Config.reports_validate config engine catalog).bind fun _ hvalid => ?_
  have hnil := (Config.reports_validate config engine catalog).eq_nil hvalid
  obtain ⟨hfirst, hpatterns⟩ := List.append_eq_nil_iff.1 hnil
  obtain ⟨-, hthreshold⟩ := List.append_eq_nil_iff.1 hfirst
  rw [← List.append_nil (List.map _ _)]
  refine (Config.reports_checkIds catalog .unknownDisabledRule args.disabled).bind fun _ _ => ?_
  refine (hthreshold ▸ Config.reports_threshold config).bind fun _ _ => ?_
  exact (hpatterns ▸ Config.reports_patterns config engine).bind fun _ _ => reports_ok _

theorem parts_of_resolve {s : Settings} (h : resolve engine args config catalog = .ok s) :
    s.disabled = config.disabled ++ args.disabled ∧
      ∃ patterns, config.patterns engine = .ok patterns ∧
        s.excludes = args.exclude ++ patterns ++
          if args.noDefaultExclude then [] else Exclusion.defaults engine := by
  unfold resolve at h
  obtain ⟨-, -, h⟩ := exists_of_bind_eq_ok h
  obtain ⟨-, -, h⟩ := exists_of_bind_eq_ok h
  obtain ⟨threshold, -, h⟩ := exists_of_bind_eq_ok h
  obtain ⟨patterns, hpatterns, h⟩ := exists_of_bind_eq_ok h
  cases h
  exact ⟨rfl, patterns, hpatterns, rfl⟩

theorem rules_catalog (s : Settings) (all : Catalog) :
    (s.catalog all).rules = all.rules.filter (·.id ∉ s.disabled) := by
  unfold catalog Catalog.without
  simp

theorem forall₂_validOnly {patterns : List String}
    (h : ∀ p ∈ patterns, ∃ g, Glob.parseExclude engine p = .ok g) :
    List.Forall₂ (fun p g => Glob.parseExclude engine p = .ok g) patterns
      (Exclusion.validOnly engine patterns) := by
  unfold Exclusion.validOnly
  induction patterns with
  | nil => exact .nil
  | cons p patterns ih =>
    obtain ⟨⟨g, hg⟩, h⟩ := List.forall_mem_cons.1 h
    rw [List.filterMap_cons_some (b := g) (by rw [hg]; rfl)]
    exact .cons hg (ih h)

/-- The default patterns are short. -/
theorem forall₂_defaults (hengine : engine.TakesShort) :
    List.Forall₂ (fun p g => Glob.parseExclude engine p = .ok g) Exclusion.defaultPatterns
      (Exclusion.defaults engine) := by
  have hshort : ∀ p ∈ Exclusion.defaultPatterns, '[' ∉ p.toList ∧ ']' ∉ p.toList ∧
      p.toList.length + 2 ≤ Glob.Engine.shortLength := by
    decide
  refine forall₂_validOnly fun p hp => ?_
  obtain ⟨hopen, hclose, hlength⟩ := hshort p hp
  exact hengine.exists_parseExclude hopen hclose hlength

theorem faults_ne_nil_iff :
    faults engine args config catalog ≠ [] ↔
      (∃ id ∈ config.disabled, id ∉ catalog.ids) ∨
        (∃ word, config.failOn = some word ∧ ¬ Severity.IsNamed word) ∨
        (∃ pattern ∈ config.exclude,
          '[' ∈ pattern.toList ∨ ']' ∈ pattern.toList ∨ engine.Refuses pattern) ∨
        ∃ id ∈ args.disabled, id ∉ catalog.ids := by
  have hids : ∀ (fault : String → ConfigError) (ids : List String),
      (ids.filter (· ∉ catalog.ids)).map fault = [] ↔ ¬ ∃ id ∈ ids, id ∉ catalog.ids := by
    simp
  have hthreshold : ((config.failOn.filter fun word => ¬ Severity.IsNamed word).map
      fun _ => ConfigError.badSeverity).toList = [] ↔
        ¬ ∃ word, config.failOn = some word ∧ ¬ Severity.IsNamed word := by
    cases config.failOn <;> simp
  have hpatterns : (config.exclude.filterMap fun pattern =>
      (Glob.refusal? engine pattern).map (ConfigError.badPattern pattern)) = [] ↔
        ¬ ∃ pattern ∈ config.exclude,
          '[' ∈ pattern.toList ∨ ']' ∈ pattern.toList ∨ engine.Refuses pattern := by
    simp [List.filterMap_eq_nil_iff, Glob.refusal?_eq_none_iff]
  unfold faults Config.faults
  rw [ne_eq, List.append_eq_nil_iff, List.append_eq_nil_iff, List.append_eq_nil_iff, hids, hids,
    hthreshold, hpatterns, ← not_or, ← not_or, ← not_or, not_not, or_assoc, or_assoc]

/-! ## The theorem -/

/-- Settings are refused exactly if the configuration disables a rule that is not in the catalog, its threshold
is no severity, one of its patterns has a bracket or is not compiled, or the command line disables a rule that is
not in the catalog; the first fault is reported. Otherwise the rules run that are disabled in neither place, in
the order of the catalog, and the paths are left out that the patterns of the command line, those of the
configuration and, unless they are switched off, the default ones stand for. -/
theorem resolve_reports {engine : Glob.Engine} (hengine : engine.TakesShort) (args : ScanArgs)
    (config : Config) (catalog : Catalog) :
    ((∃ e, resolve engine args config catalog = .error e) ↔
      (∃ id ∈ config.disabled, id ∉ catalog.ids) ∨
        (∃ word, config.failOn = some word ∧ ¬ Severity.IsNamed word) ∨
        (∃ pattern ∈ config.exclude,
          '[' ∈ pattern.toList ∨ ']' ∈ pattern.toList ∨ engine.Refuses pattern) ∨
        ∃ id ∈ args.disabled, id ∉ catalog.ids) ∧
      (∀ e, resolve engine args config catalog = .error e ↔
        (faults engine args config catalog).head? = some e) ∧
      ∀ s, resolve engine args config catalog = .ok s →
        (s.catalog catalog).rules =
            catalog.rules.filter (fun r => r.id ∉ config.disabled ∧ r.id ∉ args.disabled) ∧
          ∃ patterns, s.excludes = args.exclude ++ patterns ∧
            List.Forall₂ (fun p g => Glob.parseExclude engine p = .ok g)
              (config.exclude ++ if args.noDefaultExclude then [] else Exclusion.defaultPatterns)
              patterns := by
  have hreports := reports_resolve engine args config catalog
  refine ⟨hreports.exists_error_iff.trans faults_ne_nil_iff, hreports, fun s hs => ?_⟩
  obtain ⟨hdisabled, patterns, hpatterns, hexcludes⟩ := parts_of_resolve hs
  refine ⟨?_, patterns ++ if args.noDefaultExclude then [] else Exclusion.defaults engine, ?_, ?_⟩
  · rw [rules_catalog, hdisabled]
    simp only [List.mem_append, not_or]
  · rw [hexcludes, List.append_assoc]
  · refine List.rel_append (config.forall₂_patterns hpatterns) ?_
    split
    · exact .nil
    · exact forall₂_defaults hengine

/-! ## An engine with a limit -/

/-- What an engine says of a pattern that becomes too large. -/
def sizeReason : String := "Compiled regex exceeds size limit of 10485760 bytes."

/-- An engine for patterns of up to ten thousand items. -/
def sizedEngine : Glob.Engine := fun p => if p.length ≤ 10000 then none else some sizeReason

theorem takesShort_sizedEngine : sizedEngine.TakesShort :=
  fun _ hp => if_pos (Nat.le_trans hp (by decide))

/-- A pattern without brackets that is not compiled. -/
def oversizedPattern : String := String.ofList (List.replicate 20000 '?')

/-- A configuration with nothing but this pattern. -/
def oversizedConfig : Config := { exclude := [oversizedPattern] }

theorem refusal?_oversizedPattern :
    '[' ∉ oversizedPattern.toList ∧ ']' ∉ oversizedPattern.toList ∧
      Glob.refusal? sizedEngine oversizedPattern = some (.notCompiled sizeReason) := by
  have hchars : oversizedPattern.toList = List.replicate 20000 '?' := String.toList_ofList
  have hopen : '[' ∉ oversizedPattern.toList := by
    rw [hchars]
    exact fun h => absurd (List.eq_of_mem_replicate h) (by decide)
  have hclose : ']' ∉ oversizedPattern.toList := by
    rw [hchars]
    exact fun h => absurd (List.eq_of_mem_replicate h) (by decide)
  have hparts : ∀ n, (Glob.partsOf (List.replicate n '?')).length = n := by
    intro n
    induction n with
    | zero => rfl
    | succ n ih => rw [List.replicate_succ, Glob.partsOf, List.length_cons, ih]
  have hcovering : Glob.covering oversizedPattern = oversizedPattern := by
    unfold Glob.covering Text.endsWith
    rw [hchars, List.getLast?_replicate]
    rfl
  have hengine : sizedEngine (Glob.partsOf oversizedPattern.toList) = some sizeReason := by
    unfold sizedEngine
    rw [hchars, hparts]
    rfl
  refine ⟨hopen, hclose, ?_⟩
  unfold Glob.refusal?
  rw [if_neg (not_or.2 ⟨hopen, hclose⟩), hcovering, hengine]
  rfl

/-- Settings can be refused though all rules are known, the threshold is a severity if there is one, and no pattern
has a bracket. -/
theorem resolve_of_oversized :
    resolve sizedEngine {} oversizedConfig .builtin =
        .error (.badPattern oversizedPattern (.notCompiled sizeReason)) ∧
      ¬((∃ id ∈ oversizedConfig.disabled, id ∉ Catalog.builtin.ids) ∨
        (∃ word, oversizedConfig.failOn = some word ∧ ¬ Severity.IsNamed word) ∨
        (∃ pattern ∈ oversizedConfig.exclude, '[' ∈ pattern.toList ∨ ']' ∈ pattern.toList) ∨
        ∃ id ∈ ({} : ScanArgs).disabled, id ∉ Catalog.builtin.ids) := by
  obtain ⟨hopen, hclose, hrefusal⟩ := refusal?_oversizedPattern
  refine ⟨(reports_resolve _ _ _ _ _).2 ?_, ?_⟩
  · simp [faults, Config.faults, oversizedConfig, hrefusal]
  · simp [oversizedConfig, hopen, hclose]

/-- A configuration that disables two rules and leaves out a directory. -/
def storageConfig : Config :=
  { disabled := ["php.raw-sql", "php.unsafe-deserialization"], exclude := ["storage/"] }

/-- Arguments that disable another rule. -/
def storageArgs : ScanArgs := { disabled := ["php.command-injection"] }

/-- Arguments that disable a rule which does not exist. -/
def strayArgs : ScanArgs := { disabled := ["php.eval"] }

/-- A pattern that is not compiled is reported before an unknown rule on the command line. The pattern for a
directory is taken, in front of the default ones. -/
theorem resolve_reports_storage :
    sizedEngine.TakesShort ∧
      resolve sizedEngine strayArgs oversizedConfig .builtin =
        .error (.badPattern oversizedPattern (.notCompiled sizeReason)) ∧
      ∃ s, resolve sizedEngine storageArgs storageConfig .builtin = .ok s ∧
        (s.catalog .builtin).ids = ["php.missing-sensitive-parameter", "php.query-builder-user-sort"] ∧
        List.Forall₂ (fun p g => Glob.parseExclude sizedEngine p = .ok g)
          ["storage/", "**/vendor/**", "**/node_modules/**", "**/.git/**"] s.excludes := by
  obtain ⟨-, -, hrefusal⟩ := refusal?_oversizedPattern
  have hnone : ¬((∃ id ∈ storageConfig.disabled, id ∉ Catalog.builtin.ids) ∨
      (∃ word, storageConfig.failOn = some word ∧ ¬ Severity.IsNamed word) ∨
      (∃ pattern ∈ storageConfig.exclude,
        '[' ∈ pattern.toList ∨ ']' ∈ pattern.toList ∨ sizedEngine.Refuses pattern) ∨
      ∃ id ∈ storageArgs.disabled, id ∉ Catalog.builtin.ids) := by
    simp only [not_or]
    exact ⟨by decide, by simp [storageConfig], by decide, by decide⟩
  have hrefused := resolve_reports takesShort_sizedEngine strayArgs oversizedConfig .builtin
  have htaken := resolve_reports takesShort_sizedEngine storageArgs storageConfig .builtin
  refine ⟨takesShort_sizedEngine, (hrefused.2.1 _).2 ?_, ?_⟩
  · simp [faults, Config.faults, oversizedConfig, hrefusal]
  cases hs : resolve sizedEngine storageArgs storageConfig .builtin with
  | error e => exact absurd (htaken.1.1 ⟨e, hs⟩) hnone
  | ok s =>
    obtain ⟨hrules, patterns, hexcludes, hpatterns⟩ := htaken.2.2 s hs
    refine ⟨s, rfl, ?_, ?_⟩
    · unfold Catalog.ids
      rw [hrules]
      decide
    · rw [hexcludes]
      exact hpatterns

end Settings

end PhpAudit
