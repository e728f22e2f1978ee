import Mathlib.Data.List.GetD
import Smts.Lib.Printf
import Smts.Log.Lines

/-!
# Log — the text of a line

`css_logger_gen_format` makes a format of the header pattern and the message,
and `css_logger_log_inner` hands it to `vprintf` for the console and again, with
the same `va_list`, to `vsnprintf` for the file.
-/

namespace Smts

open CString Memory Printf Transition

/-! ## `itoa` -/

/-- The string that `itoa` takes its digits from, with the digit 0 in the middle
of it. -/
def itoaDigits : Str :=
  ((List.range 26).map fun i => BitVec.ofNat 8 (122 - i)) ++
    ((List.range 9).map fun i => BitVec.ofNat 8 (57 - i)) ++
    ((List.range 10).map fun i => BitVec.ofNat 8 (48 + i)) ++
    (List.range 26).map fun i => BitVec.ofNat 8 (97 + i)

/-- The loop of `itoa`; an `int` has 32 digits at most. -/
def itoaLoop (base : Int) : Nat → Int → Str
  | 0, _ => []
  | n + 1, value =>
      let quot := value.tdiv base
      (itoaDigits.getD (35 + (value - quot * base)).toNat 48) ::
        if quot = 0 then (if value < 0 then [45] else []) else itoaLoop base n quot

def itoa (value base : Int) : Str :=
  if base < 2 ∨ 36 < base then [] else (itoaLoop base 32 value).reverse

/-! ## The format of a line -/

/-- The strings `css_logger_gen_format` copies. It moves on its pointers to them,
so that each is copied once. -/
structure Sources where
  time : Str
  level : Str
  file : Str
  func : Str
  msg : Str

/-- What the pattern's `%` and `c` stand for, and what is left of the strings. -/
def patternPiece (line pid : Int) (src : Sources) (c : BitVec 8) : Str × Sources :=
  if c = 100 then (src.time, { src with time := [] })
  else if c = 112 then (src.level, { src with level := [] })
  else if c = 80 then (itoa pid 10, src)
  else if c = 70 then (src.file, { src with file := [] })
  else if c = 108 then (itoa line 10, src)
  else if c = 102 then (src.func, { src with func := [] })
  else if c = 109 then (src.msg, { src with msg := [] })
  else if c = 37 then ([37, 37], src)
  else ([], src)

/-- The loop of `css_logger_gen_format`. Behind a percent sign at the end of the
pattern it would read on behind the pattern. -/
def genText (line pid : Int) : Str → Sources → Option Str
  | [], _ => some []
  | [c], _ => if c = 37 then none else some [c]
  | c :: k :: pattern, src =>
      if c = 37 then
        (genText line pid pattern (patternPiece line pid src k).2).map
          ((patternPiece line pid src k).1 ++ ·)
      else (genText line pid (k :: pattern) src).map (c :: ·)

/-- `css_logger_gen_format`, into `malloc(BUFSIZ)`. -/
def genFormat (bufsiz : Nat) (pattern : Str) (line pid : Int) (src : Sources) : Option Str :=
  (genText line pid pattern src).filter fun f => f.length < bufsiz

/-- The pattern has a `%m`, so that the message is part of the real format. -/
def showsMessage : Str → Bool
  | [] => false
  | [_] => false
  | c :: k :: pattern =>
      if c = 37 then k == 109 || showsMessage pattern else showsMessage (k :: pattern)

/-- `GET_CSS_LOGGER_LEVEL_NAME`. -/
def levelName (level : Int) : Str :=
  if level = 0 then [68, 69, 66, 85, 71]
  else if level = 1 then [73, 78, 70, 79]
  else if level = 2 then [87, 65, 82, 78]
  else if level = 3 then [69, 82, 82, 79, 82]
  else [73, 78, 70, 79]

/-- The loop of `cl_index_of_basename`, which stops at the index of a separator
or at 0. -/
def lastSlash (file : Str) : Nat → Nat
  | 0 => 0
  | n + 1 => if file[n + 1]? = some 47 ∨ file[n + 1]? = some 92 then n + 1 else lastSlash file n

/-- `cl_index_of_basename`. -/
def clIndexOfBasename (file : Str) : Nat :=
  if file.length = 0 then 0 else lastSlash file file.length + 1

/-- A C string that is no part of a format. -/
def Plain (s : Str) : Prop := (0 : BitVec 8) ∉ s ∧ (37 : BitVec 8) ∉ s

/-- What `CL_LOG` hands over of the place of a call, and the time that it is. -/
structure LogSite where
  time : Str
  file : Str
  line : Int
  func : Str
  pid : Int
  level : Int
  time_plain : Plain time
  file_plain : Plain file
  func_plain : Plain func

/-- The `int` that is left of a `long`. -/
def toInt32 (value : Int) : Int := (BitVec.ofInt 32 value).toInt

namespace LogSite

def sources (site : LogSite) (msg : Str) : Sources where
  time := site.time
  level := levelName site.level
  file := site.file.drop (clIndexOfBasename site.file)
  func := site.func
  msg := msg

/-- The real format of a line, as `css_logger_log_inner` generates it from the
pattern. -/
def format (site : LogSite) (bufsiz : Nat) (pattern msg : Str) : Option Str :=
  genFormat bufsiz pattern (toInt32 site.line) (toInt32 site.pid) (site.sources msg)

variable {α : Type}

/-- A call of `css_logger_log_inner` in which `n` v*printf are given the
`va_list`. The first one finds the arguments in it, each later one what lies
behind the values that were used. The call is not defined when one of them has no
text. -/
def call (site : LogSite) (C : Conversions α) (n bufsiz : Nat) (pattern msg : Str) (args : List α)
    (behind : Nat → α) : Option LogCall :=
  ((site.format bufsiz pattern msg).bind parse).bind fun ps =>
    let text k := vprintf C ps fun i => valist args behind (k * arity ps + i)
    if (List.range n).all fun k => (text k).isSome then
      some { level := site.level, render := fun k => (text k).getD [] }
    else none

end LogSite

/-! ## The specifications of the real format -/

theorem itoaDigits_plain : ∀ c ∈ itoaDigits, c ≠ 0 ∧ c ≠ 37 := by
  have hall : itoaDigits.all (fun c => c != 0 && c != 37) = true := rfl
  intro c hc
  simpa using List.all_eq_true.mp hall c hc

theorem plain_itoaLoop (base : Int) (n : Nat) (value : Int) : Plain (itoaLoop base n value) := by
  induction n generalizing value with
  | zero => simp [itoaLoop, Plain]
  | succ n ih =>
      have hdigit : ∀ i, itoaDigits.getD i 48 ≠ 0 ∧ itoaDigits.getD i 48 ≠ 37 := by
        intro i
        rcases Nat.lt_or_ge i itoaDigits.length with hi | hi
        · rw [List.getD_eq_getElem _ _ hi]
          exact itoaDigits_plain _ (List.getElem_mem hi)
        · rw [List.getD_eq_default _ _ hi]
          decide
      obtain ⟨hzero, hpercent⟩ := hdigit (35 + (value - value.tdiv base * base)).toNat
      have hrest : Plain (if value.tdiv base = 0 then (if value < 0 then [45] else [])
          else itoaLoop base n (value.tdiv base)) := by
        split
        · split <;> simp [Plain]
        · exact ih _
      constructor
      · exact fun hmem => (List.mem_cons.mp hmem).elim (fun h => hzero h.symm) hrest.1
      · exact fun hmem => (List.mem_cons.mp hmem).elim (fun h => hpercent h.symm) hrest.2

theorem plain_itoa (value base : Int) : Plain (itoa value base) := by
  unfold itoa
  split
  · simp [Plain]
  · have h := plain_itoaLoop base 32 value
    exact ⟨fun hmem => h.1 (List.mem_reverse.mp hmem), fun hmem => h.2 (List.mem_reverse.mp hmem)⟩

theorem plain_levelName (level : Int) : Plain (levelName level) := by
  unfold levelName
  split_ifs <;> simp [Plain]

/-- The copied strings hold no conversions, but for the message. -/
structure Sources.PlainHeader (src : Sources) : Prop where
  time : Plain src.time
  level : Plain src.level
  file : Plain src.file
  func : Plain src.func

theorem LogSite.plainHeader (site : LogSite) (msg : Str) : (site.sources msg).PlainHeader where
  time := site.time_plain
  level := plain_levelName site.level
  file := ⟨fun h => site.file_plain.1 (List.mem_of_mem_drop h),
    fun h => site.file_plain.2 (List.mem_of_mem_drop h)⟩
  func := site.func_plain

variable {line pid : Int} {pattern f : Str} {src : Sources} {ps : List Piece}

theorem specs_of_plain {s : Str} (h : Plain s) : ∃ qs, parse s = some qs ∧ specs qs = [] :=
  ⟨_, parse_plain h.2, specs_map_lit s⟩

theorem plain_nil : Plain [] := by simp [Plain]

/-- One item of the pattern: only the message brings conversions into the real
format, and only the first time. -/
theorem patternPiece_specs (line pid : Int) (k : BitVec 8) (hsrc : src.PlainHeader)
    (hmsg : parse src.msg = some ps) :
    (∃ qs, parse (patternPiece line pid src k).1 = some qs ∧
      specs qs = if k = 109 then specs ps else []) ∧
      (patternPiece line pid src k).2.PlainHeader ∧
      parse (patternPiece line pid src k).2.msg = some (if k = 109 then [] else ps) := by
  obtain ⟨htime, hlevel, hfile, hfunc⟩ := hsrc
  by_cases hk : k = 109
  · subst hk
    exact ⟨⟨ps, hmsg, rfl⟩, ⟨htime, hlevel, hfile, hfunc⟩, rfl⟩
  · rw [if_neg hk, if_neg hk]
    unfold patternPiece
    split_ifs
    · exact ⟨specs_of_plain htime, ⟨plain_nil, hlevel, hfile, hfunc⟩, hmsg⟩
    · exact ⟨specs_of_plain hlevel, ⟨htime, plain_nil, hfile, hfunc⟩, hmsg⟩
    · exact ⟨specs_of_plain (plain_itoa pid 10), ⟨htime, hlevel, hfile, hfunc⟩, hmsg⟩
    · exact ⟨specs_of_plain hfile, ⟨htime, hlevel, plain_nil, hfunc⟩, hmsg⟩
    · exact ⟨specs_of_plain (plain_itoa line 10), ⟨htime, hlevel, hfile, hfunc⟩, hmsg⟩
    · exact ⟨specs_of_plain hfunc, ⟨htime, hlevel, hfile, plain_nil⟩, hmsg⟩
    · exact ⟨⟨[.lit 37], rfl, rfl⟩, ⟨htime, hlevel, hfile, hfunc⟩, hmsg⟩
    · exact ⟨specs_of_plain plain_nil, ⟨htime, hlevel, hfile, hfunc⟩, hmsg⟩

/-- The conversions of a format are those of the message, if it is shown. -/
theorem genText_specs (hsrc : src.PlainHeader) (hmsg : parse src.msg = some ps)
    (h : genText line pid pattern src = some f) :
    ∃ qs, parse f = some qs ∧ specs qs = if showsMessage pattern then specs ps else [] := by
  fun_induction genText line pid pattern src generalizing ps f with
  | case1 src =>
      obtain rfl := Option.some.inj h
      exact ⟨[], rfl, rfl⟩
  | case2 src => cases h
  | case3 c src hc =>
      obtain rfl := Option.some.inj h
      have hplain : (37 : BitVec 8) ∉ [c] := by simpa using Ne.symm hc
      exact ⟨_, parse_plain hplain, rfl⟩
  | case4 k pattern src ih =>
      obtain ⟨g, hg, rfl⟩ := Option.map_eq_some_iff.mp h
      obtain ⟨⟨qs, hqs, hspecs⟩, hsrc', hmsg'⟩ :=
        patternPiece_specs line pid k hsrc hmsg
      obtain ⟨rs, hrs, hrest⟩ := ih hsrc' hmsg' hg
      refine ⟨qs ++ rs, by rw [parse_append hqs, hrs]; rfl, ?_⟩
      rw [specs_append, hspecs, hrest, showsMessage, if_pos rfl]
      by_cases hk : k = 109
      · subst hk
        simp
      · have hbeq : (k == 109) = false := beq_eq_false_iff_ne.mpr hk
        rw [if_neg hk, if_neg hk, List.nil_append, hbeq, Bool.false_or]
  | case5 c k pattern src hc ih =>
      obtain ⟨g, hg, rfl⟩ := Option.map_eq_some_iff.mp h
      obtain ⟨rs, hrs, hrest⟩ := ih hsrc hmsg hg
      have hplain : (37 : BitVec 8) ∉ [c] := by simpa using Ne.symm hc
      refine ⟨.lit c :: rs, ?_, ?_⟩
      · have happ := parse_append (t := g) (parse_plain hplain)
        rw [hrs] at happ
        exact happ
      · rw [specs_lit, hrest, showsMessage, if_neg hc]

theorem patternPiece_zero (line pid : Int) (k : BitVec 8) (hsrc : src.PlainHeader)
    (hmsg : (0 : BitVec 8) ∉ src.msg) :
    (0 : BitVec 8) ∉ (patternPiece line pid src k).1 ∧
      (patternPiece line pid src k).2.PlainHeader ∧
      (0 : BitVec 8) ∉ (patternPiece line pid src k).2.msg := by
  obtain ⟨htime, hlevel, hfile, hfunc⟩ := hsrc
  unfold patternPiece
  split_ifs
  · exact ⟨htime.1, ⟨plain_nil, hlevel, hfile, hfunc⟩, hmsg⟩
  · exact ⟨hlevel.1, ⟨htime, plain_nil, hfile, hfunc⟩, hmsg⟩
  · exact ⟨(plain_itoa pid 10).1, ⟨htime, hlevel, hfile, hfunc⟩, hmsg⟩
  · exact ⟨hfile.1, ⟨htime, hlevel, plain_nil, hfunc⟩, hmsg⟩
  · exact ⟨(plain_itoa line 10).1, ⟨htime, hlevel, hfile, hfunc⟩, hmsg⟩
  · exact ⟨hfunc.1, ⟨htime, hlevel, hfile, plain_nil⟩, hmsg⟩
  · exact ⟨hmsg, ⟨htime, hlevel, hfile, hfunc⟩, plain_nil.1⟩
  · exact ⟨by simp, ⟨htime, hlevel, hfile, hfunc⟩, hmsg⟩
  · exact ⟨plain_nil.1, ⟨htime, hlevel, hfile, hfunc⟩, hmsg⟩

/-- A real format made of C strings has no NUL in it, so it is a C string. -/
theorem genText_zero (hpattern : (0 : BitVec 8) ∉ pattern) (hsrc : src.PlainHeader)
    (hmsg : (0 : BitVec 8) ∉ src.msg) (h : genText line pid pattern src = some f) :
    (0 : BitVec 8) ∉ f := by
  fun_induction genText line pid pattern src generalizing f with
  | case1 src =>
      obtain rfl := Option.some.inj h
      exact hpattern
  | case2 src => cases h
  | case3 c src hc =>
      obtain rfl := Option.some.inj h
      exact hpattern
  | case4 k pattern src ih =>
      obtain ⟨g, hg, rfl⟩ := Option.map_eq_some_iff.mp h
      obtain ⟨hpiece, hsrc', hmsg'⟩ :=
        patternPiece_zero line pid k hsrc hmsg
      have hrest : (0 : BitVec 8) ∉ pattern := fun hmem =>
        hpattern (List.mem_cons_of_mem _ (List.mem_cons_of_mem _ hmem))
      exact fun hmem => (List.mem_append.mp hmem).elim hpiece (ih hrest hsrc' hmsg' hg)
  | case5 c k pattern src hc ih =>
      obtain ⟨g, hg, rfl⟩ := Option.map_eq_some_iff.mp h
      rw [List.mem_cons, not_or] at hpattern
      exact fun hmem => (List.mem_cons.mp hmem).elim hpattern.1 (ih hpattern.2 hsrc hmsg hg)

/-- The real format of a line, as pieces. -/
theorem LogSite.format_pieces (site : LogSite) {bufsiz : Nat} {pattern msg f : Str}
    (hpattern : (0 : BitVec 8) ∉ pattern) (hzero : (0 : BitVec 8) ∉ msg)
    (hmsg : parse msg = some ps) (hf : site.format bufsiz pattern msg = some f) :
    ∃ qs, parse f = some qs ∧ (specs qs = if showsMessage pattern then specs ps else []) ∧
      ∀ c, .lit c ∈ qs → c ≠ 0 := by
  have hgen := (Option.filter_eq_some_iff.mp hf).1
  obtain ⟨qs, hqs, hspecs⟩ := genText_specs (site.plainHeader msg) hmsg hgen
  refine ⟨qs, hqs, hspecs, fun c hc => ?_⟩
  have hfzero := genText_zero hpattern (site.plainHeader msg) hzero hgen
  rcases lit_of_parse hqs hc with hmem | rfl
  · rintro rfl
    exact hfzero hmem
  · decide

/-- `DEFAULT_LOG_HEADER_FMT`: `"%d [%p][%P] <%F:%l:%f> - %m"`. -/
def defaultLogHeaderFmt : Str :=
  [37, 100, 32, 91, 37, 112, 93, 91, 37, 80, 93, 32, 60, 37, 70, 58, 37, 108, 58, 37, 102, 62,
    32, 45, 32, 37, 109]

/-- `"03-04"`, `INFO`, `"/a.c"`, line 12, `f` in process 7 say `"%d"`. -/
example : genFormat 8192 defaultLogHeaderFmt 12 7
    ⟨[48, 51, 45, 48, 52], levelName 1, List.drop (clIndexOfBasename [47, 97, 46, 99]) [47, 97, 46, 99],
      [102], [37, 100]⟩
    = some [48, 51, 45, 48, 52, 32, 91, 73, 78, 70, 79, 93, 91, 55, 93, 32, 60, 97, 46, 99, 58, 49, 50,
        58, 102, 62, 32, 45, 32, 37, 100] := rfl

/-! ## Console and file -/

namespace Logger

variable {w w' : Logger} {fs : FsAnswers} {c : LogCall}

/-- The console got one text, and the record of the file grew by the same. -/
def SameText (w w' : Logger) : Prop :=
  ∃ text m, w'.trace = w.trace ++ m ∧ m.filterMap LogObs.shown = [text] ∧
    w'.recorded = w.recorded ++ text

/-- What a line is on the console and in the file. -/
theorem sameText_of_logInner (hto : w.ToFile c) (hp : Placed w) (hconsole : w.noConsole = false)
    {first second : Str} (hfirst : c.render 0 = first) (hsecond : c.render 1 = second)
    (hlog : w.logInner c fs = some w') :
    SameText w w' ↔ (if second.length < w.room then cString second else []) = first := by
  subst hfirst hsecond
  rw [logInner_of_toFile hto] at hlog
  have hv : w.printConsole c = w.emit (.console (c.render 0)) := by
    rw [printConsole, hconsole]
    rfl
  have hused : w.consoleUses = 1 := by
    rw [consoleUses, hconsole]
    rfl
  rw [hv, hused] at hlog
  have hr : Ready (w.emit (.console (c.render 0))) := ⟨hto.2.1, hto.2.2.1, hto.2.2.2⟩
  have hpv : Placed (w.emit (.console (c.render 0))) := ⟨hp.offset, hp.buffer⟩
  have hrec₀ : (w.emit (.console (c.render 0))).recorded = w.recorded :=
    recorded_of_eq (m := [_]) rfl rfl rfl rfl (by simp [LogObs.written])
  have hrec : w'.recorded
      = w.recorded ++ if (c.render 1).length < w.room then cString (c.render 1) else [] := by
    by_cases hlen : (c.render 1).length < w.room
    · rw [if_pos hlen, ← hrec₀]
      exact (printFile_fits hr hpv hlen hlog).1
    · rw [if_neg hlen, List.append_nil, ← hrec₀]
      exact (printFile_unfit hr hpv hlen hlog).1
  obtain ⟨m, hm, hquiet⟩ := printFile_trace hlog
  have htrace : w'.trace = w.trace ++ (.console (c.render 0) :: m) := by
    rw [hm, emit, List.append_assoc]
    rfl
  have hshown : (.console (c.render 0) :: m).filterMap LogObs.shown = [c.render 0] := by
    rw [List.filterMap_cons, LogObs.shown, List.filterMap_eq_nil_iff.mpr hquiet]
  constructor
  · rintro ⟨text, m', hm', htext, hrec'⟩
    rw [htrace, List.append_cancel_left_eq] at hm'
    subst hm'
    rw [hshown, List.cons.injEq] at htext
    rw [htext.1]
    exact List.append_cancel_left (hrec.symm.trans hrec')
  · intro heq
    exact ⟨c.render 0, _, htrace, hshown, by rw [hrec, heq]⟩

/-- What a call renders, and that it can. -/
theorem call_spec {α : Type} {C : Conversions α} {site : LogSite} {n bufsiz : Nat}
    {pattern msg f : Str} {qs : List Piece} {args : List α} {behind : Nat → α}
    (hf : site.format bufsiz pattern msg = some f) (hqs : parse f = some qs)
    (hcall : site.call C n bufsiz pattern msg args behind = some c) :
    c.level = site.level ∧ ∀ k < n,
      (vprintf C qs fun i => valist args behind (k * arity qs + i)) = some (c.render k) := by
  rw [LogSite.call, hf, Option.bind_some, hqs, Option.bind_some] at hcall
  dsimp only at hcall
  split at hcall
  next hall =>
    obtain rfl := Option.some.inj hcall
    refine ⟨rfl, fun k hk => ?_⟩
    obtain ⟨s, hs⟩ := Option.isSome_iff_exists.mp (List.all_eq_true.mp hall k (List.mem_range.mpr hk))
    simp only [hs, Option.getD_some]
  next => cases hcall

theorem exists_call {α : Type} {C : Conversions α} {site : LogSite} {bufsiz : Nat}
    {pattern msg f : Str} {qs : List Piece} (hf : site.format bufsiz pattern msg = some f)
    (hqs : parse f = some qs) (htext : ∀ va, ∃ s, vprintf C qs va = some s) (n : Nat) (args : List α)
    (behind : Nat → α) : ∃ c, site.call C n bufsiz pattern msg args behind = some c := by
  rw [LogSite.call, hf, Option.bind_some, hqs, Option.bind_some]
  dsimp only
  refine ⟨_, if_pos (List.all_eq_true.mpr fun k _ => ?_)⟩
  obtain ⟨s, hs⟩ := htext fun i => valist args behind (k * arity qs + i)
  simp only [hs, Option.isSome_some]

/-- What console and file get of a call: the file gets what is behind the
arguments. -/
theorem call_texts {α : Type} {C : Conversions α} {site : LogSite} {bufsiz : Nat}
    {pattern msg f : Str} {qs : List Piece} {args : List α} {behind : Nat → α}
    (hf : site.format bufsiz pattern msg = some f) (hqs : parse f = some qs)
    (hlen : arity qs = args.length)
    (hcall : site.call C 2 bufsiz pattern msg args behind = some c) :
    vprintf C qs (valist args behind) = some (c.render 0) ∧
      vprintf C qs behind = some (c.render 1) := by
  have htexts := (call_spec hf hqs hcall).2
  constructor
  · simpa only [Nat.zero_mul, Nat.zero_add] using htexts 0 (by decide)
  · simpa only [Nat.one_mul, hlen, valist_add] using htexts 1 (by decide)

/-- The file got another text, or none that is not empty. -/
theorem not_sameText_of_differs (hto : w.ToFile c) (hp : Placed w) (hconsole : w.noConsole = false)
    (hdiffers : Differs (c.render 0) (c.render 1)) (hlog : w.logInner c fs = some w') :
    ¬ SameText w w' := by
  intro hsame
  obtain ⟨hne, hnul, hle⟩ := hdiffers
  have heq := (sameText_of_logInner hto hp hconsole rfl rfl hlog).mp hsame
  split at heq
  · have hzero := zero_notMem_cString (c.render 1)
    rw [heq] at hzero
    rw [cString_eq_self.mpr (hnul hzero)] at heq
    exact hne heq
  next hlong =>
    -- the text of the console is empty, and the buffer has room for three bytes
    have hoff := hp.offset
    have hroom : w.room = defaultLogBufSize - w.offset := rfl
    have hsmall : dumpToFileSize + 3 < defaultLogBufSize := by decide
    rw [← heq, List.length_nil] at hle
    omega

/-- If the texts are the same whatever is behind the arguments, no conversion
shows a value. -/
theorem not_shows_of_sameText {α : Type} {C : Conversions α} {site : LogSite} {bufsiz : Nat}
    {pattern msg f : Str} {qs : List Piece} {args : List α}
    (hto : ∀ {c : LogCall}, c.level = site.level → w.ToFile c) (hp : Placed w)
    (hconsole : w.noConsole = false) (hf : site.format bufsiz pattern msg = some f)
    (hqs : parse f = some qs) (hlen : arity qs = args.length)
    (hall : ∀ behind fs, ∃ c w', site.call C 2 bufsiz pattern msg args behind = some c ∧
      w.logInner c fs = some w' ∧ SameText w w') : ∀ d ∈ specs qs, ¬ d.Shows := by
  intro d hd hshows
  have hpos : 0 < args.length := hlen ▸ arity_pos hd
  obtain ⟨c₀, -, hc₀, -⟩ := hall (fun _ => args[0]) created
  have hshown := (call_texts hf hqs hlen hc₀).1
  -- the values behind the arguments make another text, or none
  obtain ⟨va, hva⟩ := exists_vprintf_ne C ⟨d, hd, hshows⟩ hshown
  obtain ⟨c, w', hc, hlog, hsame⟩ := hall va created
  obtain ⟨hfirst, hsecond⟩ := call_texts hf hqs hlen hc
  have hdiffers := hva _ hsecond
  rw [vprintf_valist C hlen _ va, hfirst] at hshown
  rw [← Option.some.inj hshown] at hdiffers
  exact not_sameText_of_differs (hto (call_spec hf hqs hc).1) hp hconsole hdiffers hlog hsame

/-- If no conversion shows a value, console and file get the one text there is. -/
theorem exists_sameText {α : Type} {C : Conversions α} {site : LogSite} {bufsiz : Nat}
    {pattern msg f : Str} {qs : List Piece} {args : List α} {behind : Nat → α}
    (hr : Ready w) (hto : ∀ {c : LogCall}, c.level = site.level → w.ToFile c) (hp : Placed w)
    (hconsole : w.noConsole = false) (hf : site.format bufsiz pattern msg = some f)
    (hqs : parse f = some qs) (hlit : ∀ c, .lit c ∈ qs → c ≠ 0)
    (hhidden : ∀ d ∈ specs qs, ¬ d.Shows)
    (hfits : ∀ c, site.call C 2 bufsiz pattern msg args behind = some c →
      (c.render 0).length < w.room) :
    ∃ c w', site.call C 2 bufsiz pattern msg args behind = some c ∧
      w.logInner c fs = some w' ∧ SameText w w' := by
  obtain ⟨s, hs, htext⟩ := vprintf_of_hidden C hhidden hlit
  obtain ⟨c, hc⟩ := exists_call hf hqs (fun va => ⟨s, htext va⟩) 2 args behind
  obtain ⟨hclevel, htexts⟩ := call_spec hf hqs hc
  have hrender : ∀ k < 2, c.render k = s := fun k hk =>
    (Option.some.inj ((htext _).symm.trans (htexts k hk))).symm
  obtain ⟨w', hlog⟩ := hr.exists_log hp c fs
  refine ⟨c, w', hc, hlog, (sameText_of_logInner (hto hclevel) hp hconsole (hrender 0 (by decide))
    (hrender 1 (by decide)) hlog).mpr ?_⟩
  have hroom := hfits c hc
  rw [hrender 0 (by decide)] at hroom
  rw [if_pos hroom, cString_eq_self.mpr hs]

/-- **Console and file get the same text**, whatever the values behind the
arguments are, just when the message, if the pattern shows it, has no conversion
that depends on a value. -/
theorem sameText_iff {α : Type} {mem : Mem} {es₀ : List LogEvent}
    (h₀ : Run Step (init mem) es₀ w) (hr : Ready w) (hconsole : w.noConsole = false)
    (C : Conversions α) (site : LogSite) (hlevel : w.levelPriority ≤ site.level) {bufsiz : Nat}
    {pattern msg f : Str} {ps : List Piece} {args : List α}
    (hpattern : (0 : BitVec 8) ∉ pattern) (hzero : (0 : BitVec 8) ∉ msg)
    (hmsg : parse msg = some ps) (hargs : args.length = arity ps)
    (hf : site.format bufsiz pattern msg = some f)
    (hfits : ∀ behind c, site.call C 2 bufsiz pattern msg args behind = some c →
      (c.render 0).length < w.room) :
    (∀ behind fs, ∃ c w', site.call C 2 bufsiz pattern msg args behind = some c ∧
        w.logInner c fs = some w' ∧ SameText w w') ↔
      (showsMessage pattern → ∀ d ∈ specs ps, ¬ d.Shows) := by
  have hp := placed_of_run h₀
  obtain ⟨qs, hqs, hspecs, hlit⟩ := site.format_pieces hpattern hzero hmsg hf
  have hto : ∀ {c : LogCall}, c.level = site.level → w.ToFile c := fun hc =>
    ⟨hc ▸ hlevel, hr.status, hr.noFile, hr.writer⟩
  constructor
  · intro hall hshow
    rw [if_pos hshow] at hspecs
    have hlen : arity qs = args.length := by rw [hargs, arity, hspecs, arity]
    rw [← hspecs]
    exact not_shows_of_sameText hto hp hconsole hf hqs hlen hall
  · intro hno behind fs
    have hhidden : ∀ d ∈ specs qs, ¬ d.Shows := by
      rw [hspecs]
      split
      next hshow => exact hno hshow
      next => simp
    exact exists_sameText hr hto hp hconsole hf hqs hlit hhidden (hfits behind)

/-- All conversions print the last of their values in decimal; but `%n` stores
through it, if it is not null. -/
def decimals : Conversions Nat where
  text d values :=
    if d.conv = 110 then if values.getLastD 0 = 0 then none else some []
    else if d.Shows then some (decimal (values.getLastD 0)) else some []
  shown := by
    intro d hd values hlen
    have hother : ∃ v, v ≠ values.getLastD 0 ∧ v < 10 ∧ (v = 0 ↔ values.getLastD 0 ≠ 0) := by
      by_cases hzero : values.getLastD 0 = 0
      · exact ⟨1, by omega, by decide, by omega⟩
      · exact ⟨0, Ne.symm hzero, by decide, by omega⟩
    obtain ⟨v, hne, hv, hnull⟩ := hother
    have hlast : (List.replicate d.arity v).getLastD 0 = v := by
      rw [Spec.arity, List.replicate_succ']
      simp
    refine ⟨List.replicate d.arity v, List.length_replicate, ?_⟩
    by_cases hn : d.conv = 110
    · rw [if_pos hn, if_pos hn, hlast]
      by_cases hzero : v = 0
      · rw [if_pos hzero, if_neg (hnull.mp hzero)]
        exact ⟨by simp, by simp⟩
      · have hlastZero : values.getLastD 0 = 0 := not_not.mp (hnull.not.mp hzero)
        rw [if_neg hzero, if_pos hlastZero]
        exact ⟨by simp, by simp⟩
    · rw [if_neg hn, if_neg hn, if_pos hd, if_pos hd, hlast]
      refine ⟨fun heq => hne (decimal_injective (Option.some.inj heq)), fun s t hs _ => ?_⟩
      obtain rfl := Option.some.inj hs
      constructor
      · intro hmem
        exact absurd (isDigit_of_mem_decimal hmem) (by decide)
      · rw [decimal_of_lt hv]
        simp
  hidden := by
    intro d hd
    refine ⟨[], by simp, fun values => ?_⟩
    have hn : d.conv ≠ 110 := fun hn => hd fun hs => by
      rw [hn] at hs
      exact absurd hs.1 (by decide)
    rw [if_neg hn, if_neg hd]

/-- `"/a.c"`, line 12, `f` in process 7, at `"03-04"`. -/
def site : LogSite where
  time := [48, 51, 45, 48, 52]
  file := [47, 97, 46, 99]
  line := 12
  func := [102]
  pid := 7
  level := 1
  time_plain := ⟨by decide, by decide⟩
  file_plain := ⟨by decide, by decide⟩
  func_plain := ⟨by decide, by decide⟩

/-- `"ok"`, below the default header. -/
theorem sameText_iff_ok :
    ∃ c w', site.call decimals 2 8192 defaultLogHeaderFmt [111, 107] [] (fun _ => 6) = some c ∧
      (started fun _ => 0).logInner c created = some w' ∧ SameText (started fun _ => 0) w' := by
  have hmsg : parse [111, 107] = some [.lit 111, .lit 107] := rfl
  have hf : site.format 8192 defaultLogHeaderFmt [111, 107] = some [48, 51, 45, 48, 52, 32, 91, 73,
      78, 70, 79, 93, 91, 55, 93, 32, 60, 97, 46, 99, 58, 49, 50, 58, 102, 62, 32, 45, 32, 111, 107] :=
    rfl
  refine (sameText_iff (started_run _) (started_ready _) rfl decimals site (by decide) (by decide)
    (by decide) hmsg rfl hf ?_).mpr (fun _ => by simp) _ _
  intro behind c hc
  have hline : ∃ c, site.call decimals 2 8192 defaultLogHeaderFmt [111, 107] [] behind = some c ∧
      (c.render 0).length = 31 := ⟨_, rfl, rfl⟩
  obtain ⟨c', hc', hlen⟩ := hline
  obtain rfl := Option.some.inj (hc.symm.trans hc')
  rw [hlen]
  decide

/-- `"ab%n"` stores through its argument for the console, and for the file through
what lies behind. -/
example : (site.call decimals 1 8192 defaultLogHeaderFmt [97, 98, 37, 110] [5] fun _ => 0).isSome ∧
    (site.call decimals 2 8192 defaultLogHeaderFmt [97, 98, 37, 110] [5] fun _ => 0).isNone := by
  decide +kernel

/-- `"%d"` of 5, where 6 lies behind the argument. -/
theorem not_sameText_decimal :
    ¬ ∀ mem es₀ w bufsiz pattern msg ps args behind fs c w', Run Step (init mem) es₀ w → Ready w →
      w.noConsole = false → w.levelPriority ≤ site.level → parse msg = some ps →
      args.length = arity ps → site.call decimals 2 bufsiz pattern msg args behind = some c →
      (c.render 0).length < w.room → w.logInner c fs = some w' → SameText w w' := by
  intro hall
  have hp := placed_of_run (started_run fun _ => 0)
  have hr := started_ready fun _ => 0
  have hcall : ∃ c, site.call decimals 2 8192 defaultLogHeaderFmt [37, 100] [5] (fun _ => 6) = some c ∧
      c.level = 1 ∧
      c.render 0 = [48, 51, 45, 48, 52, 32, 91, 73, 78, 70, 79, 93, 91, 55, 93, 32, 60, 97, 46, 99, 58,
        49, 50, 58, 102, 62, 32, 45, 32, 53] ∧
      c.render 1 = [48, 51, 45, 48, 52, 32, 91, 73, 78, 70, 79, 93, 91, 55, 93, 32, 60, 97, 46, 99, 58,
        49, 50, 58, 102, 62, 32, 45, 32, 54] := ⟨_, rfl, rfl, rfl, rfl⟩
  obtain ⟨c, hc, hlevel, hfirst, hsecond⟩ := hcall
  obtain ⟨w', hlog⟩ := hr.exists_log hp c created
  have hsame := hall _ _ _ _ _ _ [.spec ⟨[], .none, .none, [], 100⟩] _ _ _ _ _ (started_run fun _ => 0)
    hr rfl (by decide) rfl rfl hc (by rw [hfirst]; decide) hlog
  have hto : (started fun _ => 0).ToFile c :=
    ⟨by rw [hlevel]; decide, hr.status, hr.noFile, hr.writer⟩
  exact absurd ((sameText_of_logInner hto hp rfl hfirst hsecond hlog).mp hsame) (by decide)

end Logger

end Smts
