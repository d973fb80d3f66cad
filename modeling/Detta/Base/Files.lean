import Mathlib.Logic.Function.Basic
import Mathlib.Data.List.Basic
import Mathlib.Tactic.Common

/-!
# Programs that share a directory

Several processes run programs over the same files. A program takes one file operation after
the other (`FileProgram`); between two operations of one process the others may take theirs,
a process may crash for good, and an operation may fail. Bytes are written and read in pieces.
What is written stays: a crash ends a process, not the disk.

The logic is for files that are only written by the one process that created them. When a file
is created, the bytes it will get are fixed; these make up the *plan*, which only ever grows.
So what a process knows of the plan stays true whatever the others do
(`FileProgram.Ensures`), and results that follow from the plan hold of all processes at once
(`System.Reachable.results_of_ensures`).
-/

namespace Detta

open Function (update update_eq_self update_idem update_of_ne update_self)

variable {P α β : Type}

/-! ## Programs -/

/-- A program over files with names in `P` that returns an `α`. Each operation has a
    continuation, which gets the answer. -/
inductive FileProgram (P α : Type) where
  | done (result : α)
  /-- The length of a file, if it is there. -/
  | stat (path : P) (next : Option ℕ → FileProgram P α)
  /-- An operation that changes no file: making a directory, or flushing. -/
  | attempt (next : Bool → FileProgram P α)
  /-- Create a file that must not be there. -/
  | create (path : P) (next : Bool → FileProgram P α)
  /-- Write the rest of some bytes at the end of a file. -/
  | append (path : P) (rest : List UInt8) (next : Bool → FileProgram P α)
  /-- Read a file to its end, of which some bytes have been read. -/
  | read (path : P) (got : List UInt8) (next : Option (List UInt8) → FileProgram P α)

namespace FileProgram

def bind : FileProgram P α → (α → FileProgram P β) → FileProgram P β
  | done a, f => f a
  | stat path next, f => stat path fun n => (next n).bind f
  | attempt next, f => attempt fun b => (next b).bind f
  | create path next, f => create path fun b => (next b).bind f
  | append path rest next, f => append path rest fun b => (next b).bind f
  | read path got next, f => read path got fun bytes => (next bytes).bind f

instance : Monad (FileProgram P) where
  pure := done
  bind := bind

def lengthOf (path : P) : FileProgram P (Option ℕ) := stat path done

def tryTo : FileProgram P Bool := attempt done

def createNew (path : P) : FileProgram P Bool := create path done

def writeAll (path : P) (bytes : List UInt8) : FileProgram P Bool := append path bytes done

def readToEnd (path : P) : FileProgram P (Option (List UInt8)) := read path [] done

@[simp]
theorem lengthOf_bind (path : P) (f : Option ℕ → FileProgram P β) :
    lengthOf path >>= f = stat path f := rfl

@[simp]
theorem tryTo_bind (f : Bool → FileProgram P β) : tryTo >>= f = attempt f := rfl

@[simp]
theorem createNew_bind (path : P) (f : Bool → FileProgram P β) :
    createNew path >>= f = create path f := rfl

@[simp]
theorem writeAll_bind (path : P) (bytes : List UInt8) (f : Bool → FileProgram P β) :
    writeAll path bytes >>= f = append path bytes f := rfl

@[simp]
theorem readToEnd_bind (path : P) (f : Option (List UInt8) → FileProgram P β) :
    readToEnd path >>= f = read path [] f := rfl

end FileProgram

/-! ## What a process may rely on -/

/-- The bytes that each file was created to get. -/
abbrev Plan (P : Type) := P → Option (List UInt8)

/-- The plan grows, whoever takes the steps. -/
def Plan.Extends (plan plan' : Plan P) : Prop :=
  ∀ path bytes, plan path = some bytes → plan' path = some bytes

theorem Plan.Extends.refl (plan : Plan P) : plan.Extends plan := fun _ _ h => h

theorem Plan.Extends.trans {a b c : Plan P} (hab : a.Extends b) (hbc : b.Extends c) :
    a.Extends c := fun path bytes h => hbc path bytes (hab path bytes h)

/-- What one process knows: the file that it created and has still to write, with the bytes
    that are left, and the plan. -/
structure View (P : Type) where
  held : Option (P × List UInt8)
  plan : Plan P

/-- What may be found in a file that was planned to get some bytes. Files that the programs
    write get the bytes that they may write (`Ok`) piece by piece; other files never change. -/
def Readable (Ok : P → List UInt8 → Prop) (path : P) (bytes got : List UInt8) : Prop :=
  got = bytes ∨ Ok path bytes ∧ got <+: bytes

namespace FileProgram

/-- A program writes only files that it created, with bytes that are `Ok`, and what it returns
    satisfies `Q`; all of this whatever the other processes add to the plan meanwhile. -/
def Ensures (Ok : P → List UInt8 → Prop) (Q : α → View P → Prop) : FileProgram P α → View P → Prop
  | done a, v => ∀ plan, v.plan.Extends plan → Q a ⟨v.held, plan⟩
  | stat _ next, v => ∀ n plan, v.plan.Extends plan → (next n).Ensures Ok Q ⟨v.held, plan⟩
  | attempt next, v => ∀ b plan, v.plan.Extends plan → (next b).Ensures Ok Q ⟨v.held, plan⟩
  | create path next, v => ∃ bytes, Ok path bytes ∧ ∀ plan, v.plan.Extends plan →
      (next false).Ensures Ok Q ⟨v.held, plan⟩ ∧
      (plan path = some bytes → (next true).Ensures Ok Q ⟨some (path, bytes), plan⟩)
  | append path rest next, v => v.held = some (path, rest) ∧ ∀ b plan, v.plan.Extends plan →
      (next b).Ensures Ok Q ⟨none, plan⟩
  | read path _ next, v => ∀ plan, v.plan.Extends plan →
      (next none).Ensures Ok Q ⟨v.held, plan⟩ ∧
      ∀ bytes got, plan path = some bytes → Readable Ok path bytes got →
        (next (some got)).Ensures Ok Q ⟨v.held, plan⟩

variable {Ok : P → List UInt8 → Prop}

theorem Ensures.extend {Q : α → View P → Prop} {program : FileProgram P α} {held} {plan plan'}
    (h : program.Ensures Ok Q ⟨held, plan⟩) (hplan : plan.Extends plan') :
    program.Ensures Ok Q ⟨held, plan'⟩ := by
  cases program with
  | done a => exact fun p hp => h p (hplan.trans hp)
  | stat path next => exact fun n p hp => h n p (hplan.trans hp)
  | attempt next => exact fun b p hp => h b p (hplan.trans hp)
  | create path next =>
    obtain ⟨bytes, hok, h⟩ := h
    exact ⟨bytes, hok, fun p hp => h p (hplan.trans hp)⟩
  | append path rest next => exact ⟨h.1, fun b p hp => h.2 b p (hplan.trans hp)⟩
  | read path got next => exact fun p hp => h p (hplan.trans hp)

/-- Programs are verified one after the other. -/
theorem Ensures.bind {Q : α → View P → Prop} {Q' : β → View P → Prop} {program : FileProgram P α}
    {f : α → FileProgram P β} {v : View P} (h : program.Ensures Ok Q v)
    (hf : ∀ a v, Q a v → (f a).Ensures Ok Q' v) : (program >>= f).Ensures Ok Q' v := by
  induction program generalizing v with
  | done a => exact hf a v (h v.plan (.refl _))
  | stat path next ih => exact fun n p hp => ih n (h n p hp)
  | attempt next ih => exact fun b p hp => ih b (h b p hp)
  | create path next ih =>
    obtain ⟨bytes, hok, h⟩ := h
    exact ⟨bytes, hok, fun p hp => ⟨ih false (h p hp).1, fun hb => ih true ((h p hp).2 hb)⟩⟩
  | append path rest next ih => exact ⟨h.1, fun b p hp => ih b (h.2 b p hp)⟩
  | read path got next ih =>
    exact fun p hp => ⟨ih none (h p hp).1, fun bytes got hb hr => ih _ ((h p hp).2 bytes got hb hr)⟩

end FileProgram

/-! ## Runs -/

/-- The files that are there, with their bytes. -/
abbrev Disk (P : Type) := P → Option (List UInt8)

variable [DecidableEq P]

/-- One operation, or a piece of one. Every operation may fail. -/
inductive FileProgram.Step : Disk P → FileProgram P α → Disk P → FileProgram P α → Prop
  | found {d path next c} : d path = some c → Step d (.stat path next) d (next (some c.length))
  | missing {d path next} : Step d (.stat path next) d (next none)
  | attempted {d next} (b : Bool) : Step d (.attempt next) d (next b)
  | created {d path next} : d path = none →
      Step d (.create path next) (update d path (some [])) (next true)
  | refused {d path next} : Step d (.create path next) d (next false)
  | wrote {d path next c piece rest} : d path = some c →
      Step d (.append path (piece ++ rest) next)
        (update d path (some (c ++ piece))) (.append path rest next)
  | written {d path next} : Step d (.append path [] next) d (next true)
  | unwritten {d path rest next} : Step d (.append path rest next) d (next false)
  | fetched {d path got next c piece} : d path = some c → got ++ piece <+: c →
      Step d (.read path got next) d (.read path (got ++ piece) next)
  | ended {d path got next} : d path = some got → Step d (.read path got next) d (next (some got))
  | unread {d path got next} : Step d (.read path got next) d (next none)

theorem FileProgram.Step.bind {d d' : Disk P} {x x' : FileProgram P α}
    (h : x.Step d d' x') (f : α → FileProgram P β) : (x.bind f).Step d d' (x'.bind f) := by
  cases h with
  | found hc => exact .found hc
  | missing => exact .missing
  | attempted b => exact .attempted b
  | created hnone => exact .created hnone
  | refused => exact .refused
  | wrote hc => exact .wrote hc
  | written => exact .written
  | unwritten => exact .unwritten
  | fetched hc hpiece => exact .fetched hc hpiece
  | ended hc => exact .ended hc
  | unread => exact .unread

/-- A program runs to its end without being interrupted. -/
inductive FileProgram.Runs : Disk P → FileProgram P α → Disk P → α → Prop
  | done {d a} : Runs d (.done a) d a
  | step {d program d' program' d'' a} : program.Step d d' program' → Runs d' program' d'' a →
      Runs d program d'' a

theorem FileProgram.Runs.bind {d d' d'' : Disk P} {x : FileProgram P α} {a : α}
    {f : α → FileProgram P β} {b : β} (h : Runs d x d' a) (hf : Runs d' (f a) d'' b) :
    Runs d (x >>= f) d'' b := by
  induction h with
  | done => exact hf
  | step hstep _ ih => exact .step (hstep.bind f) (ih hf)

section

variable {d : Disk P} {path : P} {bytes : List UInt8}

theorem FileProgram.runs_lengthOf_of_none : (lengthOf path).Runs d d none :=
  .step .missing .done

theorem FileProgram.runs_lengthOf (h : d path = some bytes) :
    (lengthOf path).Runs d d (some bytes.length) :=
  .step (.found h) .done

theorem FileProgram.runs_tryTo : (tryTo : FileProgram P Bool).Runs d d true :=
  .step (.attempted true) .done

theorem FileProgram.runs_readToEnd (h : d path = some bytes) :
    (readToEnd path).Runs d d (some bytes) :=
  .step (.fetched h List.prefix_rfl) (.step (.ended h) .done)

/-- A file is created and gets its bytes at once. -/
theorem FileProgram.runs_writeAll (bytes : List UInt8) :
    (writeAll path bytes).Runs (update d path (some []))
      (update d path (some bytes)) true := by
  have hwrote : (writeAll path (bytes ++ [])).Step (update d path (some [])) _ _ :=
    .wrote (update_self ..)
  rw [List.append_nil, List.nil_append, update_idem] at hwrote
  exact .step hwrote (.step .written .done)

end

/-- The processes `ι` over one disk, and the results that were returned. -/
structure System (ι P α : Type) where
  disk : Disk P
  running : ι → Option (FileProgram P α)
  results : List α

namespace System

variable {ι : Type} [DecidableEq ι]

/-- A disk on which nothing runs yet. -/
def start (disk : Disk P) : System ι P α := ⟨disk, fun _ => none, []⟩

/-- One step of some process; `calls i` are the programs that process `i` may start. -/
inductive Step (calls : ι → FileProgram P α → Prop) : System ι P α → System ι P α → Prop
  | call {s i program} : s.running i = none → calls i program →
      Step calls s { s with running := update s.running i (some program) }
  | run {s i program d program'} : s.running i = some program →
      program.Step s.disk d program' →
      Step calls s { s with disk := d, running := update s.running i (some program') }
  | finish {s i a} : s.running i = some (.done a) →
      Step calls s
        { s with running := update s.running i none, results := a :: s.results }
  | crash {s} (i : ι) : Step calls s { s with running := update s.running i none }

/-- The states of the runs that start with a disk. -/
inductive Reachable (calls : ι → FileProgram P α → Prop) (disk : Disk P) : System ι P α → Prop
  | start : Reachable calls disk (start disk)
  | step {s s'} : Reachable calls disk s → Step calls s s' → Reachable calls disk s'

section

variable {calls : ι → FileProgram P α → Prop} {disk d d' : Disk P} {s : System ι P α} {i : ι}
  {program : FileProgram P α} {a : α}

theorem Reachable.run (hruns : program.Runs d d' a) (hidle : s.running i = none)
    (h : Reachable calls disk
      { s with disk := d, running := update s.running i (some program) }) :
    Reachable calls disk { s with disk := d', results := a :: s.results } := by
  induction hruns with
  | done =>
    have hfinish := h.step (.finish (update_self ..))
    rwa [update_idem, ← hidle, update_eq_self] at hfinish
  | step hstep _ ih =>
    have hnext := h.step (.run (update_self ..) hstep)
    rw [update_idem] at hnext
    exact ih hnext

/-- A process may call a program and run it before the others go on. -/
theorem Reachable.call (h : Reachable calls disk s) (hidle : s.running i = none)
    (hcall : calls i program) (hruns : program.Runs s.disk d a) :
    Reachable calls disk { s with disk := d, results := a :: s.results } :=
  .run hruns hidle (h.step (.call hidle hcall))

end

/-! ## All processes at once -/

section

variable {Ok : P → List UInt8 → Prop} {R : α → Plan P → Prop}
  {held : ι → Option (P × List UInt8)} {plan : Plan P} {disk : Disk P}

/-- A disk on which a plan is carried out: each process holds at most one file, no two hold
    the same one, and the file has the first bytes of what is planned. -/
structure Honours (Ok : P → List UInt8 → Prop) (held : ι → Option (P × List UInt8))
    (plan : Plan P) (disk : Disk P) : Prop where
  planned : ∀ path, plan path = none ↔ disk path = none
  content : ∀ {path bytes c}, plan path = some bytes → disk path = some c →
    Readable Ok path bytes c
  holds : ∀ {i path rest}, held i = some (path, rest) →
    ∃ c, disk path = some c ∧ plan path = some (c ++ rest) ∧ Ok path (c ++ rest)
  alone : ∀ {i j path rest rest'}, held i = some (path, rest) → held j = some (path, rest') → i = j

omit [DecidableEq P] [DecidableEq ι] in
theorem Honours.start (disk : Disk P) : Honours Ok (fun _ : ι => none) disk disk where
  planned _ := Iff.rfl
  content hb hc := .inl (Option.some.inj (hc.symm.trans hb))
  holds := nofun
  alone := nofun

omit [DecidableEq P] in
theorem Honours.letGo (h : Honours Ok held plan disk) (i : ι) :
    Honours Ok (update held i none) plan disk := by
  have hheld : ∀ {j path rest}, update held i none j = some (path, rest) →
      held j = some (path, rest) := by
    intro j path rest hj
    rcases eq_or_ne j i with rfl | hne
    · rw [update_self] at hj
      cases hj
    · rwa [update_of_ne hne] at hj
  exact ⟨h.planned, h.content, fun hj => h.holds (hheld hj),
    fun hi hj => h.alone (hheld hi) (hheld hj)⟩

/-- A process writes to a file that no other one holds, and holds it as long as bytes of the
    plan are left. -/
theorem Honours.hold (h : Honours Ok held plan disk) (i : ι) {path : P} {c rest : List UInt8}
    (hfree : ∀ {j rest'}, held j = some (path, rest') → j = i) (hok : Ok path (c ++ rest)) :
    Honours Ok (update held i (some (path, rest)))
      (update plan path (some (c ++ rest))) (update disk path (some c)) := by
  -- who holds a file is either this process, or holds another file than this one
  have hheld : ∀ {j path' rest'},
      update held i (some (path, rest)) j = some (path', rest') →
      j = i ∧ path' = path ∧ rest' = rest ∨
        j ≠ i ∧ path' ≠ path ∧ held j = some (path', rest') := by
    intro j path' rest' hj
    rcases eq_or_ne j i with rfl | hne
    · rw [update_self, Option.some.injEq, Prod.mk.injEq] at hj
      exact .inl ⟨rfl, hj.1.symm, hj.2.symm⟩
    · rw [update_of_ne hne] at hj
      refine .inr ⟨hne, ?_, hj⟩
      rintro rfl
      exact hne (hfree hj)
  constructor
  case planned =>
    intro path'
    rcases eq_or_ne path' path with rfl | hne
    · simp
    · simpa only [update_of_ne hne] using h.planned path'
  case content =>
    intro path' bytes c' hb hc
    rcases eq_or_ne path' path with rfl | hne
    · rw [update_self, Option.some.injEq] at hb hc
      subst hb hc
      exact .inr ⟨hok, List.prefix_append c rest⟩
    · rw [update_of_ne hne] at hb hc
      exact h.content hb hc
  case holds =>
    intro j path' rest' hj
    rcases hheld hj with ⟨-, rfl, rfl⟩ | ⟨-, hne, hj⟩
    · exact ⟨c, update_self .., update_self .., hok⟩
    · rw [update_of_ne hne, update_of_ne hne]
      exact h.holds hj
  case alone =>
    intro j k path' rest₁ rest₂ hj hk
    rcases hheld hj with ⟨rfl, rfl, -⟩ | ⟨-, hne, hj⟩ <;>
      rcases hheld hk with ⟨rfl, hk', -⟩ | ⟨-, hne', hk⟩
    · rfl
    · exact absurd rfl hne'
    · exact absurd hk' hne
    · exact h.alone hj hk

omit [DecidableEq ι] in
theorem Honours.extends_update (h : Honours Ok held plan disk) {path : P} (hnone : disk path = none)
    (bytes : List UInt8) : plan.Extends (update plan path (some bytes)) := by
  intro path' bytes' hb
  have hne : path' ≠ path := by
    rintro rfl
    rw [(h.planned path').2 hnone] at hb
    cases hb
  rwa [update_of_ne hne]

/-- One operation of a program that is verified. -/
theorem Honours.step {i : ι} {program program' : FileProgram P α} {d : Disk P}
    {Q : α → View P → Prop} (h : Honours Ok held plan disk)
    (hens : program.Ensures Ok Q ⟨held i, plan⟩) (hstep : program.Step disk d program') :
    ∃ kept plan', Honours Ok (update held i kept) plan' d ∧ plan.Extends plan' ∧
      program'.Ensures Ok Q ⟨kept, plan'⟩ := by
  -- most operations leave the disk and what is held as they are
  have hsame : program'.Ensures Ok Q ⟨held i, plan⟩ → d = disk →
      ∃ kept plan', Honours Ok (update held i kept) plan' d ∧ plan.Extends plan' ∧
        program'.Ensures Ok Q ⟨kept, plan'⟩ := by
    rintro hp rfl
    exact ⟨held i, plan, by rwa [update_eq_self], .refl plan, hp⟩
  cases hstep with
  | found _ => exact hsame (hens _ plan (.refl plan)) rfl
  | missing => exact hsame (hens _ plan (.refl plan)) rfl
  | attempted b => exact hsame (hens b plan (.refl plan)) rfl
  | @created path next hnone =>
    obtain ⟨bytes, hok, hens⟩ := hens
    have hext := h.extends_update hnone bytes
    refine ⟨some (path, bytes), _, h.hold i (fun hj => ?_) hok, hext,
      (hens _ hext).2 (update_self ..)⟩
    obtain ⟨c, hc, -⟩ := h.holds hj
    rw [hnone] at hc
    cases hc
  | refused =>
    obtain ⟨bytes, -, hens⟩ := hens
    exact hsame (hens plan (.refl plan)).1 rfl
  | @wrote path next c piece rest hc =>
    obtain ⟨hheld, hens⟩ := hens
    obtain ⟨c', hc', hplan, hok⟩ := h.holds hheld
    obtain rfl : c' = c := Option.some.inj (hc'.symm.trans hc)
    rw [← List.append_assoc] at hplan hok
    have hhold := h.hold i (fun hj => h.alone hj hheld) hok
    rw [← hplan, update_eq_self] at hhold
    exact ⟨some (path, rest), plan, hhold, .refl plan, rfl, hens⟩
  | written => exact ⟨none, plan, h.letGo i, .refl plan, hens.2 true plan (.refl plan)⟩
  | unwritten => exact ⟨none, plan, h.letGo i, .refl plan, hens.2 false plan (.refl plan)⟩
  | fetched _ _ => exact hsame hens rfl
  | @ended path got next hgot =>
    cases hplan : plan path with
    | none =>
      rw [(h.planned path).1 hplan] at hgot
      cases hgot
    | some bytes =>
      exact hsame ((hens plan (.refl plan)).2 bytes got hplan (h.content hplan hgot)) rfl
  | unread => exact hsame (hens plan (.refl plan)).1 rfl

/-- Every process is verified, and so were those that returned. -/
structure Follows (Ok : P → List UInt8 → Prop) (R : α → Plan P → Prop)
    (held : ι → Option (P × List UInt8)) (plan : Plan P) (s : System ι P α) : Prop where
  honours : Honours Ok held plan s.disk
  ensures : ∀ {i program}, s.running i = some program →
    program.Ensures Ok (fun a v => R a v.plan) ⟨held i, plan⟩
  returned : ∀ a ∈ s.results, ∀ plan', plan.Extends plan' → R a plan'

omit [DecidableEq P] in
/-- One process goes on with another program, while the plan may have grown. -/
theorem Follows.goOn {s : System ι P α} (h : Follows Ok R held plan s) (i : ι)
    {kept : Option (P × List UInt8)} {plan' : Plan P} {d : Disk P}
    {program : Option (FileProgram P α)} (hd : Honours Ok (update held i kept) plan' d)
    (hext : plan.Extends plan')
    (hprogram : ∀ p ∈ program, p.Ensures Ok (fun a v => R a v.plan) ⟨kept, plan'⟩) :
    Follows Ok R (update held i kept) plan'
      { s with disk := d, running := update s.running i program } := by
  refine ⟨hd, fun {j p} hj => ?_, fun a ha p hp => h.returned a ha p (hext.trans hp)⟩
  dsimp only at hj
  rcases eq_or_ne j i with rfl | hne
  · rw [update_self] at hj ⊢
    exact hprogram p hj
  · rw [update_of_ne hne] at hj ⊢
    exact (h.ensures hj).extend hext

variable {calls : ι → FileProgram P α → Prop}

theorem Follows.step {s s' : System ι P α} (h : Follows Ok R held plan s)
    (hcalls : ∀ i program, calls i program → ∀ plan,
      program.Ensures Ok (fun a v => R a v.plan) ⟨none, plan⟩)
    (hstep : Step calls s s') : ∃ held' plan', Follows Ok R held' plan' s' := by
  cases hstep with
  | @call i program _ hcall =>
    refine ⟨_, plan, h.goOn i (h.honours.letGo i) (.refl plan) fun p hp => ?_⟩
    obtain rfl : program = p := Option.some.inj hp
    exact hcalls i program hcall plan
  | @run i program d program' hrun hstep =>
    obtain ⟨kept, plan', hd, hext, hens⟩ := h.honours.step (h.ensures hrun) hstep
    refine ⟨_, plan', h.goOn i hd hext fun p hp => ?_⟩
    obtain rfl : program' = p := Option.some.inj hp
    exact hens
  | @finish i a hdone =>
    have hgoOn := @goOn _ _ _ _ _ _ _ _ _ h i none plan _ none (h.honours.letGo i) (.refl plan)
      nofun
    refine ⟨_, plan, hgoOn.honours, hgoOn.ensures, fun b hb p hp => ?_⟩
    rcases List.mem_cons.1 hb with rfl | hb
    · exact h.ensures hdone p hp
    · exact h.returned b hb p hp
  | crash i => exact ⟨_, plan, h.goOn i (h.honours.letGo i) (.refl plan) nofun⟩

/-- In every run of verified programs there is one plan from which what every process returned
    follows. -/
theorem Reachable.results_of_ensures {s : System ι P α} (h : Reachable calls disk s)
    (hcalls : ∀ i program, calls i program → ∀ plan,
      program.Ensures Ok (fun a v => R a v.plan) ⟨none, plan⟩) :
    ∃ plan : Plan P, ∀ a ∈ s.results, R a plan := by
  have hfollows : ∃ held plan, Follows Ok R held plan s := by
    induction h with
    | start => exact ⟨fun _ => none, disk, .start disk, nofun, nofun⟩
    | step _ hstep ih =>
      obtain ⟨held, plan, ih⟩ := ih
      exact ih.step hcalls hstep
  obtain ⟨held, plan, hfollows⟩ := hfollows
  exact ⟨plan, fun a ha => hfollows.returned a ha plan (.refl plan)⟩

end

end System

end Detta
