import ProcessingCommon.FileExecuting.Model
import ProcessingCommon.Lib.BasicString
import ProcessingCommon.Lib.DescriptorTable
import ProcessingCommon.Lib.Ledger

/-!
# The launch of a command

`StFork` in full: the lists of C strings that are made for `execvpe()` and given back, and the
child's side of `vfork()`, which turns the descriptors of the pipes into the standard ones. The
strings behind `argv` and `envv` are those that `cmdAdd` and `envSet` got, and the child begins with
the descriptors that the tick of `StPipesCreate` left: nobody changes them before the tick of
`StFork`.
-/

namespace ProcessingCommon

open BasicString (cStr)
open Ledger (Event Owns heldAfter)
open Program (Exec wp each)

/-! ## The command line -/

/-- C strings. -/
structure CmdLine where
  mArgs : List Bytes
  mEnv : List Bytes := []
  mUserEnv : Bool := false

namespace CmdLine

/-- No command is added for an empty one. -/
def intCmdAdd (cmd : Bytes) (argv : List Bytes) : Option CmdLine :=
  if cmd = [] then none else some { mArgs := cStr 0 cmd :: argv }

/-- What `envSet` is called with. -/
structure EnvSet where
  envv : List Bytes
  dropOld : Bool

def envSet (environ : List Bytes) (c : CmdLine) (e : EnvSet) : CmdLine :=
  { c with mEnv := c.mEnv ++ (if e.dropOld then [] else environ) ++ e.envv, mUserEnv := true }

/-- A command with its environments. -/
def configure (environ : List Bytes) (cmd : Bytes) (argv : List Bytes) (es : List EnvSet) :
    Option CmdLine :=
  (intCmdAdd cmd argv).map (es.foldl (envSet environ))

/-- The environment that the calls of `envSet` ask for: that of the parent if there is none. -/
def asked (environ : List Bytes) (es : List EnvSet) : List Bytes :=
  if es = [] then environ
  else es.flatMap fun e => (if e.dropOld then [] else environ) ++ e.envv

theorem foldl_envSet (environ : List Bytes) (c : CmdLine) (es : List EnvSet) :
    es.foldl (envSet environ) c =
      { mArgs := c.mArgs
        mEnv := c.mEnv ++ es.flatMap fun e => (if e.dropOld then [] else environ) ++ e.envv
        mUserEnv := c.mUserEnv || !es.isEmpty } := by
  induction es generalizing c with
  | nil => simp
  | cons e es ih => simp [ih, envSet]

end CmdLine

/-! ## Lists of C strings -/

/-- A list as `vecConstCharToCharList` makes it: the array and the strings it points to, `none`
for `NULL`. -/
structure CharList where
  block : Nat
  elems : List (Option Nat)

namespace CharList

/-- The strings in front of the first `NULL`. -/
def ended (l : CharList) : List Nat := (l.elems.takeWhile Option.isSome).filterMap id

/-- All blocks of the list. -/
def blocks (l : CharList) : List Nat := l.elems.filterMap id ++ [l.block]

def set (l : CharList) (i p : Nat) : CharList := { l with elems := l.elems.set i (some p) }

end CharList

/-- What the child executes. -/
structure Image where
  file : Option Bytes
  argv : List Bytes
  envp : List Bytes
deriving DecidableEq

/-- What the child of `vfork()` is told to execute. -/
def CmdLine.image (environ : List Bytes) (c : CmdLine) : Image where
  file := c.mArgs.head?
  argv := c.mArgs
  envp := if c.mUserEnv then c.mEnv else environ

inductive LaunchCall
  | calloc
  | strdup (s : Bytes)
  | free (block : Nat)
  /-- The child reads both lists before the call returns. -/
  | vfork (mpArgs mpEnv : CharList) (mUserEnv : Bool)

@[reducible] def LaunchAnswer : LaunchCall → Type
  | .calloc => Option Nat
  | .strdup _ => Option Nat
  | .free _ => Unit
  | .vfork _ _ _ => Option Int

/-- The members that `StFork` works on. -/
structure Launching where
  fe : FileExecuting
  mpArgs : Option CharList := none
  mpEnv : Option CharList := none

/-- The heap, with what is in its strings, and what children were told to execute. -/
structure Heap where
  trace : List (Event Nat) := []
  str : Nat → Bytes := fun _ => []
  launched : List Image := []

abbrev Launch := Program LaunchCall LaunchAnswer Launching

namespace Launch

abbrev perform (k : LaunchCall) : Launch (LaunchAnswer k) := Program.perform k

/-- `size_t` to `int`. -/
def intOf (cnt : Nat) : Int := (Int32.ofNat cnt).toInt

/-- Gives the value the reference has afterwards. -/
def ptrListFree (cnt : Nat) (lst : Option CharList) : Launch (Option CharList) :=
  match lst with
  | none => return none
  | some l => do
    each (l.elems.take (intOf cnt).toNat) fun
      | none => return
      | some p => perform (.free p)
    perform (.free l.block)
    return none

/-- The loop of `vecConstCharToCharList` over the strings from `i` on. -/
def charListFill (cnt : Nat) (pElem : CharList) (i : Nat) : List Bytes → Launch (Option CharList)
  | [] => return some pElem
  | s :: lst => do
    match ← perform (.strdup s) with
    | none => ptrListFree cnt (some pElem)
    | some p => charListFill cnt (pElem.set i p) (i + 1) lst

def vecConstCharToCharList (lst : List Bytes) : Launch (Option CharList) := do
  match ← perform .calloc with
  | none => return none
  | some block =>
    charListFill lst.length ⟨block, List.replicate (lst.length + 1) none⟩ 0 lst

def goto (st : ProcState) : Launch Success := do
  modify fun s => { s with fe := { s.fe with mState := st } }
  return .pending

/-- The parent's side. -/
def stFork (c : CmdLine) : Launch Success := do
  let mpArgs ← vecConstCharToCharList c.mArgs
  modify fun s => { s with mpArgs := mpArgs }
  match mpArgs with
  | none => return .negative
  | some args => do
    let mpEnv ← vecConstCharToCharList c.mEnv
    modify fun s => { s with mpEnv := mpEnv }
    match mpEnv with
    | none => do
      let mpArgs ← ptrListFree c.mArgs.length (some args)
      modify fun s => { s with mpArgs := mpArgs }
      return .negative
    | some env => do
      let idProc ← perform (.vfork args env c.mUserEnv)
      let mpArgs ← ptrListFree c.mArgs.length (some args)
      modify fun s => { s with mpArgs := mpArgs }
      let mpEnv ← ptrListFree c.mEnv.length (some env)
      modify fun s => { s with mpEnv := mpEnv }
      match idProc with
      | none => return .negative
      | some idProc => do
        modify fun s => { s with fe := { s.fe with
          mResult := { s.fe.mResult with idChild := idProc } } }
        goto .stParentStart

/-! ## The heap -/

def strings (w : Heap) (l : CharList) : List Bytes := l.ended.map w.str

/-- `execvpe(mpArgs[0], mpArgs, mUserEnv ? mpEnv : environ)` -/
def execvpe (w : Heap) (environ : List Bytes) (mpArgs mpEnv : CharList) (mUserEnv : Bool) : Image where
  file := (strings w mpArgs).head?
  argv := strings w mpArgs
  envp := if mUserEnv then strings w mpEnv else environ

/-- The C library: every block may be refused, and is one that is not in use. -/
def heap (environ : List Bytes) (w : Heap) : (k : LaunchCall) → LaunchAnswer k → Heap → Prop
  | .calloc, r, w' =>
    match r with
    | none => w' = w
    | some b => b ∉ heldAfter [] w.trace ∧ w' = { w with trace := w.trace ++ [.acquire b] }
  | .strdup s, r, w' =>
    match r with
    | none => w' = w
    | some b => b ∉ heldAfter [] w.trace ∧
        w' = { w with trace := w.trace ++ [.acquire b], str := Function.update w.str b s }
  | .free b, _, w' => w' = { w with trace := w.trace ++ [.release b] }
  | .vfork mpArgs mpEnv mUserEnv, r, w' =>
    match r with
    | none => w' = w
    | some _ => w' = { w with
        trace := w.trace ++ (mpArgs.blocks ++ mpEnv.blocks).map .use
        launched := w.launched ++ [execvpe w environ mpArgs mpEnv mUserEnv] }

variable {environ : List Bytes} {bs ps : List Nat} {w w' : Heap} {l : CharList} {left cnt : Nat}
  {s s' : Launching} {lst done : List Bytes}

/-- The strings `ps` are in the list, and `left` are missing. -/
def Filled (l : CharList) (ps : List Nat) (left : Nat) : Prop :=
  l.elems = ps.map some ++ List.replicate (left + 1) none

/-- A list that is made up to the last `left` strings, beside the blocks `bs`. -/
structure Partial (bs : List Nat) (w : Heap) (l : CharList) (ps : List Nat) (left : Nat) :
    Prop where
  elems : Filled l ps left
  owns : Owns w.trace (ps ++ l.block :: bs)

/-- A list that is made of `lst`. -/
def Made (bs : List Nat) (lst : List Bytes) (w : Heap) (l : CharList) : Prop :=
  ∃ ps, Partial bs w l ps 0 ∧ ps.map w.str = lst

/-- What a member leaves alone beside the blocks `bs`. -/
structure Beside (bs : List Nat) (w w' : Heap) : Prop where
  str : ∀ b ∈ bs, w'.str b = w.str b
  launched : w'.launched = w.launched

theorem Beside.refl : Beside bs w w := ⟨fun _ _ => rfl, rfl⟩

theorem Beside.trans {w'' : Heap} (h : Beside bs w w') (h' : Beside bs w' w'') :
    Beside bs w w'' :=
  ⟨fun b hb => (h'.str b hb).trans (h.str b hb), h'.launched.trans h.launched⟩

theorem Beside.mono {bs' : List Nat} (h : Beside bs' w w') (hsub : ∀ b ∈ bs, b ∈ bs') :
    Beside bs w w' :=
  ⟨fun b hb => h.str b (hsub b hb), h.launched⟩

theorem intOf_toNat (h : cnt < 2 ^ 31) : (intOf cnt).toNat = cnt := by
  rw [intOf, Int32.toInt_ofNat_of_lt h, Int.toNat_natCast]

theorem filterMap_elems (h : Filled l ps left) (hcnt : ps.length ≤ cnt) :
    (l.elems.take cnt).filterMap id = ps := by
  have htake : (ps.map some).take cnt = ps.map some :=
    List.take_of_length_le (by rwa [List.length_map])
  rw [h, List.take_append, htake, List.filterMap_append, List.take_replicate,
    List.filterMap_replicate_of_none rfl, List.append_nil, List.filterMap_map]
  exact List.filterMap_some

/-- Everything that has been made is given back. -/
theorem wp_ptrListFree (h : Partial bs w l ps left) (hcnt : ps.length ≤ cnt) (hlt : cnt < 2 ^ 31) :
    wp (heap environ) (ptrListFree cnt (some l)) (fun r s' w' =>
      r = none ∧ s' = s ∧ w'.str = w.str ∧ w'.launched = w.launched ∧ Owns w'.trace bs) s w := by
  have hstart : Owns w.trace ((l.elems.take cnt).filterMap id ++ l.block :: bs) := by
    rw [filterMap_elems h.elems hcnt]
    exact h.owns
  rw [ptrListFree, intOf_toNat hlt]
  refine Program.wp_seq (Program.wp_each (fun left s' v => s' = s ∧ v.str = w.str ∧
    v.launched = w.launched ∧ Owns v.trace (left.filterMap id ++ l.block :: bs)) ?_
    ⟨rfl, rfl, rfl, hstart⟩) ?_
  · rintro (_ | p) es s' v - ⟨hs, hstr, hlaunched, howns⟩
    · exact ⟨hs, hstr, hlaunched, howns⟩
    · rintro _ _ rfl
      exact ⟨hs, hstr, hlaunched, howns.release⟩
  · rintro _ s' v ⟨rfl, hstr, hlaunched, howns⟩ _ _ rfl
    exact ⟨rfl, rfl, hstr, hlaunched, howns.release⟩

theorem Partial.set (h : Partial bs w l ps (left + 1)) {p : Nat} (hp : p ∉ heldAfter [] w.trace)
    (str : Nat → Bytes) :
    Partial bs { w with trace := w.trace ++ [.acquire p], str := str } (l.set ps.length p)
      (ps ++ [p]) left where
  elems := by
    rw [Filled, CharList.set, h.elems, List.set_append_right _ _ (Nat.le_of_eq (List.length_map _)),
      List.length_map, Nat.sub_self, List.replicate_succ, List.set_cons_zero, List.map_append,
      List.append_assoc]
    rfl
  owns := (h.owns.acquire hp).perm (by
    rw [List.append_assoc]
    exact List.perm_middle.symm)

/-- The loop makes the whole list or gives back what it has made. -/
theorem wp_charListFill (hlt : cnt < 2 ^ 31) (hcnt : ps.length + lst.length = cnt)
    (h : Partial bs w l ps lst.length) (hdone : ps.map w.str = done) :
    wp (heap environ) (charListFill cnt l ps.length lst) (fun r s' w' =>
      s' = s ∧ Beside bs w w' ∧
        match r with
        | none => Owns w'.trace bs
        | some l => Made bs (done ++ lst) w' l) s w := by
  induction lst generalizing w l ps done with
  | nil => exact ⟨rfl, .refl, ps, h, hdone.trans (List.append_nil _).symm⟩
  | cons x lst ih =>
    rw [charListFill, Program.wp_bind, Program.wp_perform]
    rintro (_ | p) v hv
    · cases hv
      refine Program.wp_mono (wp_ptrListFree h (by omega) hlt) ?_
      rintro _ s' v ⟨rfl, rfl, hstr, hlaunched, howns⟩
      exact ⟨rfl, ⟨fun b _ => congrFun hstr b, hlaunched⟩, howns⟩
    · obtain ⟨hp, rfl⟩ := hv
      have hkept : ∀ b ∈ ps ++ l.block :: bs, Function.update w.str p x b = w.str b :=
        fun b hb => Function.update_of_ne (ne_of_mem_of_not_mem hb (h.owns.notMem hp)) ..
      have hnext : (ps ++ [p]).map (Function.update w.str p x) = done ++ [x] := by
        rw [List.map_append, List.map_singleton, Function.update_self, ← hdone]
        refine congrArg (· ++ [x]) (List.map_congr_left fun b hb => ?_)
        exact hkept b (List.mem_append_left _ hb)
      have hlength : (ps ++ [p]).length = ps.length + 1 := List.length_append
      have hlast : (ps ++ [p]).length + lst.length = cnt := by
        rw [hlength, Nat.add_right_comm]
        exact hcnt
      have hrest := ih hlast (h.set hp _) hnext
      rw [hlength] at hrest
      refine Program.wp_mono hrest ?_
      rintro r s' v ⟨hs, hbeside, hr⟩
      refine ⟨hs, ⟨fun b hb => ?_, hbeside.launched⟩, ?_⟩
      · exact (hbeside.str b hb).trans
          (hkept b (List.mem_append_right _ (List.mem_cons_of_mem _ hb)))
      · rwa [List.append_assoc] at hr

theorem wp_vecConstCharToCharList (h : Owns w.trace bs) (hlt : lst.length < 2 ^ 31) :
    wp (heap environ) (vecConstCharToCharList lst) (fun r s' w' =>
      s' = s ∧ Beside bs w w' ∧
        match r with
        | none => Owns w'.trace bs
        | some l => Made bs lst w' l) s w := by
  rw [vecConstCharToCharList, Program.wp_bind, Program.wp_perform]
  rintro (_ | block) v hv
  · cases hv
    exact ⟨rfl, .refl, h⟩
  · obtain ⟨hblock, rfl⟩ := hv
    have hbuilt : Partial bs { w with trace := w.trace ++ [.acquire block] }
        ⟨block, List.replicate (lst.length + 1) none⟩ [] lst.length :=
      ⟨rfl, h.acquire hblock⟩
    refine Program.wp_mono (wp_charListFill hlt (Nat.zero_add _) hbuilt rfl) ?_
    rintro r s' v ⟨hs, hbeside, hr⟩
    exact ⟨hs, ⟨hbeside.str, hbeside.launched⟩, hr⟩

/-! ## The fork -/

/-- A run of `forkStart` with any answers. -/
def Forks (fe : FileExecuting) (res : Success) (fe' : FileExecuting) : Prop :=
  Exec (fun _ _ _ w' => w' = ()) FileExecuting.forkStart fe () res fe' ()

theorem forks_noArgs (fe : FileExecuting) : Forks fe .negative fe := .call false rfl .ret

theorem forks_noEnv (fe : FileExecuting) : Forks fe .negative fe :=
  .call true rfl (.call false rfl .ret)

theorem forks_noProc (fe : FileExecuting) : Forks fe .negative fe :=
  .call true rfl (.call true rfl (.call none rfl .ret))

theorem forks_started (fe : FileExecuting) (idProc : Int) :
    Forks fe .pending { fe with
      mResult := { fe.mResult with idChild := idProc }, mState := .stParentStart } :=
  .call true rfl (.call true rfl (.call (some idProc) rfl (.get (.set (.get (.set .ret))))))

/-- What `StFork` leaves behind: no list, no block, and one child if it reports `pending`. -/
structure Forked (environ : List Bytes) (c : CmdLine) (bs : List Nat) (s : Launching) (w : Heap)
    (res : Success) (s' : Launching) (w' : Heap) : Prop where
  mpArgs : s'.mpArgs = none
  mpEnv : s'.mpEnv = none
  owns : Owns w'.trace bs
  launched : w'.launched = w.launched ++ if res = .pending then [c.image environ] else []
  forks : Forks s.fe res s'.fe

theorem ended_eq (h : Filled l ps 0) : l.ended = ps := by
  rw [CharList.ended, h, List.takeWhile_append_of_pos (by simp)]
  simp

theorem blocks_eq (h : Filled l ps left) : l.blocks = ps ++ [l.block] := by
  have hps := filterMap_elems h (Nat.le_max_left ps.length l.elems.length)
  rw [List.take_of_length_le (Nat.le_max_right ..)] at hps
  rw [CharList.blocks, hps]

theorem strings_eq (h : Filled l ps 0) (hstr : ps.map w.str = lst) : strings w l = lst := by
  rw [strings, ended_eq h, hstr]

/-- `vfork()` reads both lists; what the blocks are held for stays. -/
theorem wp_vfork {args env : CharList} {qs : List Nat} {c : CmdLine}
    (hargs : Filled args ps 0) (hargv : ps.map w.str = c.mArgs)
    (henv : Partial (ps ++ args.block :: bs) w env qs 0) (henvp : qs.map w.str = c.mEnv) :
    wp (heap environ) (perform (.vfork args env c.mUserEnv)) (fun r s' w' =>
      s' = s ∧ Partial (qs ++ env.block :: bs) w' args ps 0 ∧
        w'.launched = w.launched ++ if r.isSome then [c.image environ] else []) s w := by
  have hperm : (qs ++ env.block :: (ps ++ args.block :: bs)).Perm
      (ps ++ args.block :: (qs ++ env.block :: bs)) := by
    simpa using List.perm_append_comm_assoc (qs ++ [env.block]) (ps ++ [args.block]) bs
  have howns := henv.owns.perm hperm
  rintro (_ | idProc) w' hw'
  · cases hw'
    exact ⟨rfl, ⟨hargs, howns⟩, (List.append_nil _).symm⟩
  · cases hw'
    refine ⟨rfl, ⟨hargs, howns.uses fun b hb => ?_⟩, ?_⟩
    · rw [blocks_eq hargs, blocks_eq henv.elems] at hb
      simp only [List.mem_append, List.mem_cons] at hb ⊢
      tauto
    · refine congrArg (w.launched ++ [·]) ?_
      rw [execvpe, strings_eq hargs hargv, strings_eq henv.elems henvp]
      rfl

theorem wp_stFork {c : CmdLine} (hargs : c.mArgs.length < 2 ^ 31) (henv : c.mEnv.length < 2 ^ 31)
    (hs : s.mpEnv = none) (h : Owns w.trace bs) :
    wp (heap environ) (stFork c) (Forked environ c bs s w) s w := by
  rw [stFork]
  refine Program.wp_seq (wp_vecConstCharToCharList h hargs) ?_
  rintro (_ | args) s₁ w₁ ⟨rfl, hbeside, hr⟩
  · exact ⟨rfl, hs, hr, hbeside.launched.trans (List.append_nil _).symm, forks_noArgs _⟩
  obtain ⟨ps, hbuilt, hargv⟩ := hr
  have hps : ps.length ≤ c.mArgs.length := by rw [← hargv, List.length_map]
  dsimp only
  rw [Program.wp_bind, Program.wp_modify]
  refine Program.wp_seq (wp_vecConstCharToCharList hbuilt.owns henv) ?_
  rintro (_ | env) s₂ w₂ ⟨rfl, hbeside₂, hr⟩
  · dsimp only
    rw [Program.wp_bind, Program.wp_modify]
    refine Program.wp_seq (wp_ptrListFree ⟨hbuilt.elems, hr⟩ hps hargs) ?_
    rintro _ s₃ w₃ ⟨rfl, rfl, -, hlaunched, howns⟩
    refine ⟨rfl, rfl, howns, ?_, forks_noEnv _⟩
    rw [hlaunched, hbeside₂.launched, hbeside.launched]
    exact (List.append_nil _).symm
  obtain ⟨qs, hbuilt₂, henvp⟩ := hr
  have hqs : qs.length ≤ c.mEnv.length := by rw [← henvp, List.length_map]
  have hkept : ps.map w₂.str = c.mArgs := by
    rw [← hargv]
    exact List.map_congr_left fun b hb => hbeside₂.str b (List.mem_append_left _ hb)
  dsimp only
  rw [Program.wp_bind, Program.wp_modify]
  refine Program.wp_seq (wp_vfork hbuilt.elems hkept hbuilt₂ henvp) ?_
  rintro idProc s₃ w₃ ⟨rfl, hargs₃, hlaunched⟩
  refine Program.wp_seq (wp_ptrListFree hargs₃ hps hargs) ?_
  rintro _ s₄ w₄ ⟨rfl, rfl, -, hlaunched₄, howns₄⟩
  rw [Program.wp_bind, Program.wp_modify]
  refine Program.wp_seq (wp_ptrListFree ⟨hbuilt₂.elems, howns₄⟩ hqs henv) ?_
  rintro _ s₅ w₅ ⟨rfl, rfl, -, hlaunched₅, howns₅⟩
  rw [Program.wp_bind, Program.wp_modify]
  have hall : w₅.launched = w.launched ++ if idProc.isSome then [c.image environ] else [] := by
    rw [hlaunched₅, hlaunched₄, hlaunched, hbeside₂.launched, hbeside.launched]
  cases idProc with
  | none => exact ⟨rfl, rfl, howns₅, hall, forks_noProc _⟩
  | some idProc => exact ⟨rfl, rfl, howns₅, hall, forks_started _ idProc⟩

theorem image_configure {cmd : Bytes} {argv : List Bytes} {es : List CmdLine.EnvSet} {c : CmdLine}
    (hc : CmdLine.configure environ cmd argv es = some c) :
    c.image environ =
      ⟨some (cStr 0 cmd), cStr 0 cmd :: argv, CmdLine.asked environ es⟩ := by
  rw [CmdLine.configure, CmdLine.intCmdAdd] at hc
  split at hc
  · cases hc
  · have hfold : c = es.foldl (CmdLine.envSet environ) { mArgs := cStr 0 cmd :: argv } :=
      (Option.some.inj hc).symm
    rw [hfold, CmdLine.foldl_envSet, CmdLine.image, CmdLine.asked]
    cases es <;> rfl

/-- Whatever the C library refuses and whether `vfork()` works: `StFork` gives back every block that
it has got, once, and keeps no list, and the child that is started is told to execute the command
with the arguments and the environment that were asked for. -/
theorem command_launched {cmd : Bytes} {argv : List Bytes} {es : List CmdLine.EnvSet} {c : CmdLine}
    (hc : CmdLine.configure environ cmd argv es = some c)
    (hargs : c.mArgs.length < 2 ^ 31) (henv : c.mEnv.length < 2 ^ 31) (hs : s.mpEnv = none)
    (h : Owns w.trace bs) {res : Success} (hrun : Exec (heap environ) (stFork c) s w res s' w') :
    (s'.mpArgs = none ∧ s'.mpEnv = none) ∧ Owns w'.trace bs ∧ Forks s.fe res s'.fe ∧
      w'.launched = w.launched ++
        if res = .pending then
          [⟨some (cStr 0 cmd), cStr 0 cmd :: argv, CmdLine.asked environ es⟩]
        else [] := by
  have hforked := Program.wp_iff.mp (wp_stFork hargs henv hs h) _ _ _ hrun
  refine ⟨⟨hforked.mpArgs, hforked.mpEnv⟩, hforked.owns, hforked.forks, ?_⟩
  rw [← image_configure hc]
  exact hforked.launched

/-- `ls` with the environment `A=`: every block is given and `vfork()` works. -/
theorem command_launched_ls :
    ∃ s' w', Exec (heap []) (stFork { mArgs := [[108, 115]], mEnv := [[65, 61]], mUserEnv := true })
        { fe := {} } {} .pending s' w' ∧ Owns w'.trace [] ∧ s'.mpArgs = none ∧
        w'.launched = [⟨some [108, 115], [[108, 115]], [[65, 61]]⟩] := by
  have hrun : ∃ s' w', Exec (heap [])
      (stFork { mArgs := [[108, 115]], mEnv := [[65, 61]], mUserEnv := true })
      { fe := {} } {} .pending s' w' :=
    ⟨_, _, .call (some 0) ⟨by decide, rfl⟩ <| .call (some 1) ⟨by decide, rfl⟩ <| .get <| .set <|
      .call (some 2) ⟨by decide, rfl⟩ <| .call (some 3) ⟨by decide, rfl⟩ <| .get <| .set <|
      .call (some 7) rfl <|
      .call () rfl <| .call () rfl <| .get <| .set <|
      .call () rfl <| .call () rfl <| .get <| .set <|
      .get <| .set <| .get <| .set .ret⟩
  obtain ⟨s', w', hrun⟩ := hrun
  have hc : CmdLine.configure [] [108, 115] [] [⟨[[65, 61]], true⟩] =
      some { mArgs := [[108, 115]], mEnv := [[65, 61]], mUserEnv := true } := rfl
  obtain ⟨hlists, howns, -, hlaunched⟩ :=
    command_launched hc (by decide) (by decide) rfl .start hrun
  exact ⟨s', w', hrun, howns, hlists.1, hlaunched⟩

/-! ## The child -/

/-- What a descriptor refers to. -/
inductive OpenFile
  | other (id : Nat)
  | pipeEnd (n : NodeSel) (e : PipeEnd)
  | null
deriving DecidableEq

open DescriptorTable

abbrev Descriptors := Table OpenFile

/-- What the calls of the child give: `dup2()` for the three outputs in the order of the calls,
the hard limit of `getrlimit()` and whether `execvpe()` works. -/
structure ChildAnswers where
  dup2Err : Bool
  dup2In : Bool
  dup2Out : Bool
  rlimMax : Option Nat
  execvpe : Bool

/-- `dup2()` of a member; fails also for a descriptor that is closed. -/
def childDup2 (ok : Bool) (t : Descriptors) (fd : Int) (fdNew : Nat) : Option Descriptors :=
  if ok && decide (0 ≤ fd) then dup2 t fd.toNat fdNew else none

/-- `close()` of a `rlim_t`, which becomes an `int`. -/
def closeInt (t : Descriptors) (fd : Nat) : Descriptors :=
  if intOf fd < 0 then t else close t (intOf fd).toNat

def closefromInternal (rlimMax : Nat) (fdStart : Nat) (t : Descriptors) : Descriptors :=
  (List.range' fdStart (rlimMax - fdStart)).foldl closeInt t

/-- The descriptors of the program that the child executes; `none` if it ends by `_exit()`. -/
def childStart (fe : FileExecuting) (a : ChildAnswers) (t : Descriptors) : Option Descriptors := do
  let t ← childDup2 a.dup2Err t (fe.fd .nodeErr .fdWrite) 2
  let t ← childDup2 a.dup2In t (fe.fd .nodeIn .fdRead) 0
  let t ← childDup2 a.dup2Out t (fe.fd .nodeOut .fdWrite) 1
  let rlimMax ← a.rlimMax
  let t := closefromInternal rlimMax 3 t
  if a.execvpe then some t else none

/-- What the output of a node is to be. -/
def outputFile (fe : FileExecuting) (n : NodeSel) : OpenFile :=
  if (fe.node n).manualEnabled || (fe.node n).autoEnabled then .pipeEnd n .fdWrite else .null

/-- The standard descriptors of the command, and no others. -/
def standard (fe : FileExecuting) : Descriptors
  | 0 => some (.pipeEnd .nodeIn .fdRead)
  | 1 => some (outputFile fe .nodeOut)
  | 2 => some (outputFile fe .nodeErr)
  | _ => none

/-- Descriptors are `int`s under the limit. -/
def InRange (rlimMax fd : Nat) : Prop := fd < rlimMax ∧ fd < 2 ^ 31

instance (rlimMax fd : Nat) : Decidable (InRange rlimMax fd) := inferInstanceAs (Decidable (_ ∧ _))

/-- The kernel gives the lowest closed descriptors. -/
def kernel (rlimMax : Nat) (t : Descriptors) : (k : Call) → Answer k → Descriptors → Prop
  | .pipe n, r, t' =>
    match r with
    | none => t' = t
    | some p => ∃ r w : Nat, p = ⟨r, w⟩ ∧ InRange rlimMax r ∧ InRange rlimMax w ∧
        Lowest t r ∧ Lowest (openAt t r (.pipeEnd n .fdRead)) w ∧
        t' = openAt (openAt t r (.pipeEnd n .fdRead)) w (.pipeEnd n .fdWrite)
  | .openNull _, r, t' =>
    match r with
    | none => t' = t
    | some fd => ∃ w : Nat, fd = w ∧ InRange rlimMax w ∧ Lowest t w ∧ t' = openAt t w .null
  | _, _, t' => t' = t

variable {rlimMax : Nat} {t t' : Descriptors} {fe fe' : FileExecuting} {n n' : NodeSel} {fd : Nat}

/-! ## The descriptors of the pipes -/

abbrev Wanted (fe : FileExecuting) (n : NodeSel) : Prop :=
  ((fe.node n).manualEnabled || (fe.node n).autoEnabled) = true

/-- What was open stays, and everything open is in range. -/
structure Opened (rlimMax : Nat) (t t' : Descriptors) : Prop where
  stays : ∀ fd, t fd ≠ none → t' fd = t fd
  inRange : (∀ fd, t fd ≠ none → InRange rlimMax fd) → ∀ fd, t' fd ≠ none → InRange rlimMax fd

theorem Opened.refl : Opened rlimMax t t := ⟨fun _ _ => rfl, id⟩

theorem Opened.trans {t'' : Descriptors} (h : Opened rlimMax t t') (h' : Opened rlimMax t' t'') :
    Opened rlimMax t t'' where
  stays fd hfd := by
    have hstays := h.stays fd hfd
    exact (h'.stays fd (hstays ▸ hfd)).trans hstays
  inRange ht := h'.inRange (h.inRange ht)

theorem Opened.openAt (hfd : t fd = none) (hin : InRange rlimMax fd) (f : OpenFile) :
    Opened rlimMax t (openAt t fd f) where
  stays fd' hfd' := openAt_of_ne fun he => hfd' (he ▸ hfd)
  inRange ht fd' hfd' := by
    rcases eq_or_ne fd' fd with rfl | hne
    · exact hin
    · rw [openAt_of_ne hne] at hfd'
      exact ht fd' hfd'

/-- What is closed was closed before. -/
theorem Opened.closed (h : Opened rlimMax t t') (hfd : t' fd = none) : t fd = none := by
  by_contra hne
  exact hne ((h.stays fd hne).symm.trans hfd)

/-- The write end that the command gets of an output. -/
structure OutputCreated (fe : FileExecuting) (n : NodeSel) (t : Descriptors) (fe' : FileExecuting)
    (t' : Descriptors) (w : Nat) : Prop where
  fd : fe'.fd n .fdWrite = w
  file : t' w = some (outputFile fe n)
  new : t w = none
  wanted : Wanted fe n → ∃ r, Lowest t r ∧ r < w
  unwanted : ¬ Wanted fe n → Lowest t w

/-- The members beside the descriptors of the node `n`. -/
def SameBeside (n : NodeSel) (fe fe' : FileExecuting) : Prop :=
  (∀ n' e, n' ≠ n → fe'.fd n' e = fe.fd n' e) ∧ ∀ n', outputFile fe' n' = outputFile fe n' ∧
    (Wanted fe' n' ↔ Wanted fe n')

theorem sameBeside_setPipe (fe : FileExecuting) (n : NodeSel) (p : FePairFd) :
    SameBeside n fe (fe.setPipe n p) := by
  refine ⟨fun n' e hn => ?_, fun n' => ?_⟩
  · rw [FileExecuting.fd, FileExecuting.node_setPipe, if_neg hn]
    rfl
  · cases n <;> cases n' <;> exact ⟨rfl, .rfl⟩

theorem wp_outputCreate (fe : FileExecuting) (n : NodeSel) (t : Descriptors) :
    wp (kernel rlimMax) (FileExecuting.outputCreate n) (fun ok fe' t' => ok = true →
      Opened rlimMax t t' ∧ SameBeside n fe fe' ∧ ∃ w, OutputCreated fe n t fe' t' w) fe t := by
  rw [FileExecuting.outputCreate, Program.wp_bind, Program.wp_get]
  by_cases hw : Wanted fe n
  · dsimp only
    rw [if_pos hw, Program.wp_bind, Program.wp_perform]
    rintro (_ | p) t' ht
    · exact nofun
    · obtain ⟨r, w, rfl, hrin, hwin, hr, hwlow, rfl⟩ := ht
      rintro -
      refine ⟨?_, sameBeside_setPipe .., w, ?_, ?_, ?_, fun _ => ⟨r, hr, hr.lt_next hwlow⟩, ?_⟩
      · exact (Opened.openAt hr.closed hrin _).trans (.openAt hwlow.closed hwin _)
      · cases n <;> rfl
      · rw [openAt_self, outputFile, if_pos hw]
      · exact (Opened.openAt hr.closed hrin _).closed hwlow.closed
      · exact fun hno => absurd hw hno
  · dsimp only
    rw [if_neg hw, Program.wp_bind, Program.wp_perform]
    rintro (_ | fd) t' ht
    · exact nofun
    · obtain ⟨w, rfl, hwin, hwlow, rfl⟩ := ht
      rintro -
      refine ⟨.openAt hwlow.closed hwin _, sameBeside_setPipe .., w, ?_, ?_, hwlow.closed, ?_,
        fun _ => hwlow⟩
      · cases n <;> rfl
      · rw [openAt_self, outputFile, if_neg hw]
      · exact fun hyes => absurd hyes hw

/-- The descriptors that the child turns into standard ones. -/
structure Created (rlimMax : Nat) (fe : FileExecuting) (t : Descriptors) (fe' : FileExecuting)
    (t' : Descriptors) (r w e : Nat) : Prop where
  fdIn : fe'.fd .nodeIn .fdRead = r
  fdOut : fe'.fd .nodeOut .fdWrite = w
  fdErr : fe'.fd .nodeErr .fdWrite = e
  fileIn : t' r = some (.pipeEnd .nodeIn .fdRead)
  fileOut : t' w = some (outputFile fe .nodeOut)
  fileErr : t' e = some (outputFile fe .nodeErr)
  opened : Opened rlimMax t t'
  in_two : r = 2 ↔ t 2 = none ∧ t 0 ≠ none ∧ t 1 ≠ none
  out_zero : w ≠ 0
  out_two : w = 2 ↔ t 2 = none ∧ t 0 = none ∧ t 1 = none ∧ ¬ Wanted fe .nodeOut

/-- The read end of stdin is the lowest descriptor, so it is 2 if only that is closed below. -/
theorem lowest_two_iff {r : Nat} (h : Lowest t r) :
    r = 2 ↔ t 2 = none ∧ t 0 ≠ none ∧ t 1 ≠ none := by
  rw [h.eq_iff]
  refine and_congr_right fun _ => ⟨fun hk => ⟨hk 0 (by decide), hk 1 (by decide)⟩, ?_⟩
  rintro ⟨h0, h1⟩ k hk
  match k with
  | 0 => exact h0
  | 1 => exact h1

/-- The third descriptor after two others is 2 if there was none. -/
theorem third_two_iff {r i w : Nat} {f g : OpenFile} (hr : Lowest t r)
    (hi : Lowest (openAt t r f) i) (hw : Lowest (openAt (openAt t r f) i g) w) :
    w = 2 ↔ t 2 = none ∧ t 0 = none ∧ t 1 = none := by
  have hri := hr.lt_next hi
  have hiw := hi.lt_next hw
  have hback : ∀ {fd}, fd ≠ r → fd ≠ i → openAt (openAt t r f) i g fd = t fd := fun h h' =>
    (openAt_of_ne h').trans (openAt_of_ne h)
  constructor
  · rintro rfl
    obtain rfl : i = 1 := by omega
    obtain rfl : r = 0 := by omega
    refine ⟨(hback (by decide) (by decide)).symm.trans hw.closed, hr.closed, ?_⟩
    exact (openAt_of_ne (by decide)).symm.trans hi.closed
  · rintro ⟨h2, h0, h1⟩
    obtain rfl : r = 0 := Nat.le_zero.mp (hr.le h0)
    have hi1 : i ≤ 1 := hi.le ((openAt_of_ne (by decide)).trans h1)
    obtain rfl : i = 1 := by omega
    have hw2 : w ≤ 2 := hw.le ((hback (by decide) (by decide)).trans h2)
    omega

theorem wp_pipesCreate (fe : FileExecuting) (t : Descriptors) :
    wp (kernel rlimMax) FileExecuting.pipesCreate (fun res fe' t' => res = .pending →
      ∃ r w e, Created rlimMax fe t fe' t' r w e) fe t := by
  rw [FileExecuting.pipesCreate, Program.wp_bind, Program.wp_perform]
  rintro (_ | p) t₁ ht
  · exact nofun
  obtain ⟨r, i, rfl, hrin, hiin, hr, hi, rfl⟩ := ht
  have hopened : Opened rlimMax t _ := (Opened.openAt hr.closed hrin _).trans
    (.openAt hi.closed hiin (.pipeEnd .nodeIn .fdWrite))
  dsimp only
  rw [Program.wp_bind, Program.wp_modify]
  have hbeside := sameBeside_setPipe fe .nodeIn ⟨r, i⟩
  refine Program.wp_seq (wp_outputCreate _ .nodeOut _) ?_
  rintro (_ | _) fe₂ t₂ hout
  · exact nofun
  obtain ⟨hopened₂, hbeside₂, w, hw⟩ := hout rfl
  refine Program.wp_seq (wp_outputCreate _ .nodeErr _) ?_
  rintro (_ | _) fe₃ t₃ herr
  · exact nofun
  obtain ⟨hopened₃, hbeside₃, e, he⟩ := herr rfl
  rintro -
  have hri := hr.lt_next hi
  have hfileIn : openAt (openAt t r (.pipeEnd .nodeIn .fdRead)) i (.pipeEnd .nodeIn .fdWrite) r =
      some (.pipeEnd .nodeIn .fdRead) := by
    rw [openAt_of_ne (Nat.ne_of_lt hri), openAt_self]
  have hopenIn := hfileIn ▸ Option.some_ne_none _
  refine ⟨r, w, e, ?_, ?_, he.fd, ?_, ?_, ?_, hopened.trans (hopened₂.trans hopened₃),
    lowest_two_iff hr, ?_, ?_⟩
  · exact (hbeside₃.1 .nodeIn .fdRead (by decide)).trans
      (hbeside₂.1 .nodeIn .fdRead (by decide))
  · exact (hbeside₃.1 .nodeOut .fdWrite (by decide)).trans hw.fd
  · exact ((hopened₂.trans hopened₃).stays r hopenIn).trans hfileIn
  · rw [hopened₃.stays w (hw.file ▸ Option.some_ne_none _), hw.file, (hbeside.2 .nodeOut).1]
  · rw [he.file, (hbeside₂.2 .nodeErr).1, (hbeside.2 .nodeErr).1]
  · rintro rfl
    obtain rfl : r = 0 := Nat.le_zero.mp (hr.le (hopened.closed hw.new))
    exact hopenIn hw.new
  · rcases Classical.em (Wanted fe .nodeOut) with hwanted | hunwanted
    · obtain ⟨r', hr', hlt⟩ := hw.wanted ((hbeside.2 .nodeOut).2.mpr hwanted)
      have hir' := hi.lt_next hr'
      exact ⟨fun _ => by omega, fun h => absurd hwanted h.2.2.2⟩
    · have hthird := third_two_iff hr hi (hw.unwanted (mt (hbeside.2 .nodeOut).2.mp hunwanted))
      exact hthird.trans ⟨fun h => ⟨h.1, h.2.1, h.2.2, hunwanted⟩, fun h => ⟨h.1, h.2.1, h.2.2.1⟩⟩

/-! ## The table of the command -/

theorem foldl_closeInt (t : Descriptors) (fds : List Nat) :
    fds.foldl closeInt t =
      closeAll t (fds.filterMap fun x => if intOf x < 0 then none else some (intOf x).toNat) := by
  rw [closeAll, List.foldl_filterMap]
  refine congrArg (fun f => fds.foldl f t) (funext fun t => funext fun x => ?_)
  rw [closeInt]
  split <;> rfl

/-- A descriptor is closed if one of the numbers becomes it as an `int`. -/
theorem closefromInternal_apply (t : Descriptors) (fd : Nat) :
    ((∃ x, 3 ≤ x ∧ x < rlimMax ∧ intOf x = fd) → closefromInternal rlimMax 3 t fd = none) ∧
      (¬ (∃ x, 3 ≤ x ∧ x < rlimMax ∧ intOf x = fd) → closefromInternal rlimMax 3 t fd = t fd) := by
  have hmem : fd ∈ ((List.range' 3 (rlimMax - 3)).filterMap fun x =>
      if intOf x < 0 then none else some (intOf x).toNat) ↔
        ∃ x, 3 ≤ x ∧ x < rlimMax ∧ intOf x = fd := by
    rw [List.mem_filterMap]
    refine exists_congr fun x => ?_
    rw [List.mem_range'_1, and_assoc]
    split
    · simp only [reduceCtorEq, and_false, false_iff]
      omega
    · rw [Option.some_inj]
      omega
  rw [closefromInternal, foldl_closeInt, closeAll_apply, ← hmem]
  exact ⟨fun h => if_pos h, fun h => if_neg h⟩

/-- Where the command gets its standard descriptors. -/
def Startable (rlimMax : Nat) (fe : FileExecuting) (t : Descriptors) : Prop :=
  rlimMax ≤ 2 ^ 32 ∧ ¬ (t 2 = none ∧ (t 0 ≠ none ∧ t 1 ≠ none ∨
    t 0 = none ∧ t 1 = none ∧ ¬ Wanted fe .nodeOut ∧ Wanted fe .nodeErr))

theorem childDup2_of_open {f : OpenFile} (h : t fd = some f) (ok : Bool) (fdNew : Nat) :
    childDup2 ok t fd fdNew = if ok then some (openAt t fdNew f) else none := by
  rw [childDup2, decide_eq_true (Int.natCast_nonneg fd), Bool.and_true, Int.toNat_natCast,
    dup2_of_open h]

/-- Whether all calls of the child work. -/
def ChildAnswers.Work (a : ChildAnswers) : Prop :=
  a.dup2Err = true ∧ a.dup2In = true ∧ a.dup2Out = true ∧ a.rlimMax.isSome = true ∧
    a.execvpe = true

namespace Created

variable {r w e : Nat} {a : ChildAnswers}

/-- The three descriptors after the calls of `dup2()`. -/
def table (fe : FileExecuting) (t : Descriptors) (r w : Nat) : Descriptors :=
  openAt (openAt (openAt t 2 (outputFile fe .nodeErr))
    0 (if r = 2 then outputFile fe .nodeErr else .pipeEnd .nodeIn .fdRead))
    1 (if w = 2 then outputFile fe .nodeErr else outputFile fe .nodeOut)

theorem childStart_eq (h : Created rlimMax fe t fe' t' r w e)
    (ha : ∀ max, a.rlimMax = some max → max = rlimMax) :
    (a.Work → childStart fe' a t' = some (closefromInternal rlimMax 3 (table fe t' r w))) ∧
      (¬ a.Work → childStart fe' a t' = none) := by
  have hin : openAt t' 2 (outputFile fe .nodeErr) r =
      some (if r = 2 then outputFile fe .nodeErr else .pipeEnd .nodeIn .fdRead) := by
    split
    · next hr => rw [hr, openAt_self]
    · next hr => rw [openAt_of_ne hr, h.fileIn]
  have hout : openAt (openAt t' 2 (outputFile fe .nodeErr)) 0
      (if r = 2 then outputFile fe .nodeErr else .pipeEnd .nodeIn .fdRead) w =
        some (if w = 2 then outputFile fe .nodeErr else outputFile fe .nodeOut) := by
    rw [openAt_of_ne h.out_zero]
    split
    · next hw => rw [hw, openAt_self]
    · next hw => rw [openAt_of_ne hw, h.fileOut]
  rw [childStart, h.fdErr, h.fdIn, h.fdOut, childDup2_of_open h.fileErr]
  obtain ⟨dup2Err, dup2In, dup2Out, max, execvpe⟩ := a
  cases dup2Err with
  | false => exact ⟨fun hw => absurd hw.1 Bool.false_ne_true, fun _ => rfl⟩
  | true =>
  rw [if_pos rfl, Option.bind_eq_bind, Option.bind_some, childDup2_of_open hin]
  cases dup2In with
  | false => exact ⟨fun hw => absurd hw.2.1 Bool.false_ne_true, fun _ => rfl⟩
  | true =>
  rw [if_pos rfl, Option.bind_eq_bind, Option.bind_some, childDup2_of_open hout]
  cases dup2Out with
  | false => exact ⟨fun hw => absurd hw.2.2.1 Bool.false_ne_true, fun _ => rfl⟩
  | true =>
  cases max with
  | none => exact ⟨fun hw => absurd hw.2.2.2.1 Bool.false_ne_true, fun _ => rfl⟩
  | some max =>
  obtain rfl := ha max rfl
  cases execvpe with
  | false => exact ⟨fun hw => absurd hw.2.2.2.2 Bool.false_ne_true, fun _ => rfl⟩
  | true => exact ⟨fun _ => rfl, fun hno => absurd ⟨rfl, rfl, rfl, rfl, rfl⟩ hno⟩

theorem outputFile_ne_in (fe : FileExecuting) (n : NodeSel) :
    outputFile fe n ≠ .pipeEnd .nodeIn .fdRead := by
  rw [outputFile]
  split <;> simp

/-- Without its own pipe stdout may be what stderr is: the null device. -/
theorem outputFile_err_eq_out (hout : ¬ Wanted fe .nodeOut) :
    outputFile fe .nodeErr = outputFile fe .nodeOut ↔ ¬ Wanted fe .nodeErr := by
  rw [outputFile, outputFile, if_neg hout]
  split
  · next herr => exact iff_of_false (by simp) (not_not.mpr herr)
  · next herr => exact iff_of_true rfl herr

theorem table_apply (fe : FileExecuting) (t : Descriptors) (hfd : 3 ≤ fd) :
    table fe t r w fd = t fd := by
  rw [table, openAt_of_ne (by omega), openAt_of_ne (by omega), openAt_of_ne (by omega)]

/-- The table of the dups is right if and only if no dup replaced what a later one reads by another
file. -/
theorem table_standard (fe : FileExecuting) (t : Descriptors) :
    (∀ fd < 3, table fe t r w fd = standard fe fd) ↔
      r ≠ 2 ∧ (w = 2 → outputFile fe .nodeErr = outputFile fe .nodeOut) := by
  constructor
  · intro h
    constructor
    · intro hr
      have h0 : some (if r = 2 then outputFile fe .nodeErr else .pipeEnd .nodeIn .fdRead) =
          some (.pipeEnd .nodeIn .fdRead) := h 0 (by decide)
      rw [if_pos hr] at h0
      exact outputFile_ne_in fe _ (Option.some.inj h0)
    · intro hw
      have h1 : some (if w = 2 then outputFile fe .nodeErr else outputFile fe .nodeOut) =
          some (outputFile fe .nodeOut) := h 1 (by decide)
      rw [if_pos hw] at h1
      exact Option.some.inj h1
  · rintro ⟨hr, hw⟩ fd hfd
    have hfile : (if w = 2 then outputFile fe .nodeErr else outputFile fe .nodeOut) =
        outputFile fe .nodeOut := by
      split
      · next h2 => exact hw h2
      · rfl
    rw [table, if_neg hr, hfile]
    match fd with
    | 0 => rfl
    | 1 => rfl
    | 2 => rfl

theorem intOf_ne_std {x : Nat} (hx : 3 ≤ x) (hlt : x < 2 ^ 32) (hfd : fd < 3) : intOf x ≠ fd := by
  rw [intOf, Int32.toInt_ofNat', Int.bmod_def, Int32.size]
  split <;> omega

theorem closed_standard (h : Created rlimMax fe t fe' t' r w e)
    (ht : ∀ fd, t fd ≠ none → InRange rlimMax fd) :
    closefromInternal rlimMax 3 (table fe t' r w) = standard fe ↔ Startable rlimMax fe t := by
  have hcond : Startable rlimMax fe t ↔ rlimMax ≤ 2 ^ 32 ∧ r ≠ 2 ∧
      (w = 2 → outputFile fe .nodeErr = outputFile fe .nodeOut) := by
    have hin := h.in_two
    have hout := h.out_two
    rw [Startable]
    rcases Classical.em (Wanted fe .nodeOut) with hwanted | hunwanted
    · tauto
    · rw [outputFile_err_eq_out hunwanted]
      tauto
  rw [hcond, ← table_standard fe t']
  constructor
  · intro heq
    have hmax : rlimMax ≤ 2 ^ 32 := by
      by_contra hgt
      have hzero : closefromInternal rlimMax 3 (table fe t' r w) 0 = none :=
        (closefromInternal_apply _ 0).1 ⟨2 ^ 32, by omega, by omega, by decide⟩
      rw [heq] at hzero
      cases hzero
    refine ⟨hmax, fun fd hfd => ?_⟩
    rw [← heq, (closefromInternal_apply _ fd).2]
    rintro ⟨x, hx, hlt, hint⟩
    exact intOf_ne_std hx (by omega) hfd hint
  · rintro ⟨hmax, hstd⟩
    funext fd
    rcases Nat.lt_or_ge fd 3 with hfd | hfd
    · rw [(closefromInternal_apply _ fd).2, hstd fd hfd]
      rintro ⟨x, hx, hlt, hint⟩
      exact intOf_ne_std hx (by omega) hfd hint
    · have hstandard : standard fe fd = none := by
        match fd, hfd with
        | fd + 3, _ => rfl
      rw [hstandard]
      rcases Classical.em (∃ x, 3 ≤ x ∧ x < rlimMax ∧ intOf x = fd) with hclose | hleft
      · exact (closefromInternal_apply _ fd).1 hclose
      · rw [(closefromInternal_apply _ fd).2 hleft, table_apply fe t' hfd]
        by_contra hopen
        obtain ⟨hlt, hint⟩ := h.opened.inRange ht fd hopen
        exact hleft ⟨fd, hfd, hlt, Int32.toInt_ofNat_of_lt hint⟩

end Created

/-- The child of every run of `StPipesCreate`: it executes the command if and only if all its calls
work, and the command then has the read end of its stdin, the write ends of its outputs (or the null
device) as standard descriptors and no others, except where a `dup2()` replaces a file that a later
one reads: only 2 is closed in the parent, or all of 0, 1 and 2 are and nobody wants stdout, but
stderr is wanted. A hard limit above 2^32 makes the loop close the standard descriptors again; what
is open in the parent is below it. -/
theorem child_descriptors (ht : ∀ fd, t fd ≠ none → InRange rlimMax fd)
    (hrun : Exec (kernel rlimMax) FileExecuting.pipesCreate fe t .pending fe' t')
    {a : ChildAnswers} (ha : ∀ max, a.rlimMax = some max → max = rlimMax) :
    (childStart fe' a t' = none ↔ ¬ a.Work) ∧
      ∀ fds, childStart fe' a t' = some fds → (fds = standard fe ↔ Startable rlimMax fe t) := by
  obtain ⟨r, w, e, hcreated⟩ := Program.wp_iff.mp (wp_pipesCreate fe t) _ _ _ hrun rfl
  obtain ⟨hworks, hfails⟩ := hcreated.childStart_eq ha
  refine ⟨⟨fun hnone hwork => ?_, hfails⟩, fun fds hfds => ?_⟩
  · rw [hworks hwork] at hnone
    cases hnone
  · have hwork : a.Work := by
      by_contra hno
      rw [hfails hno] at hfds
      cases hfds
    rw [← Option.some.inj ((hworks hwork).symm.trans hfds)]
    exact hcreated.closed_standard ht

/-- A parent that has the three standard descriptors. -/
def stdParent : Descriptors := fun fd => if fd < 3 then some (.other fd) else none

/-- A command whose stdout is read. -/
def readCommand : FileExecuting :=
  { mState := .stPipesCreate, mNodeOut := { manualEnabled := true } }

theorem child_descriptors_std :
    ∃ fe' t', Exec (kernel 1024) FileExecuting.pipesCreate readCommand stdParent .pending fe' t' ∧
      childStart fe' ⟨true, true, true, some 1024, true⟩ t' = some (standard readCommand) := by
  have hrun : ∃ fe' t',
      Exec (kernel 1024) FileExecuting.pipesCreate readCommand stdParent .pending fe' t' :=
    ⟨_, _, .call (some ⟨3, 4⟩) ⟨3, 4, rfl, by decide, by decide, by decide, by decide, rfl⟩ <|
      .get <| .set <| .get <|
      .call (some ⟨5, 6⟩) ⟨5, 6, rfl, by decide, by decide, by decide, by decide, rfl⟩ <|
      .get <| .set <| .get <|
      .call (some 7) ⟨7, rfl, by decide, by decide, rfl⟩ <| .get <| .set <| .get <| .set .ret⟩
  obtain ⟨fe', t', hrun⟩ := hrun
  have ht : ∀ fd, stdParent fd ≠ none → InRange 1024 fd := by
    intro fd hfd
    have hlt : fd < 3 := by
      by_contra hge
      exact hfd (if_neg hge)
    exact ⟨by omega, by omega⟩
  have hmax : ∀ max, (⟨true, true, true, some 1024, true⟩ : ChildAnswers).rlimMax = some max →
      max = 1024 := fun max h => (Option.some.inj h).symm
  obtain ⟨hnone, hfds⟩ := child_descriptors ht hrun hmax
  have hwork : (⟨true, true, true, some 1024, true⟩ : ChildAnswers).Work := ⟨rfl, rfl, rfl, rfl, rfl⟩
  obtain ⟨fds, heq⟩ := Option.ne_none_iff_exists'.mp (mt hnone.mp (not_not.mpr hwork))
  refine ⟨fe', t', hrun, heq.trans (congrArg some ((hfds fds heq).mpr ⟨by decide, ?_⟩))⟩
  rintro ⟨h2, -⟩
  cases h2

end Launch

end ProcessingCommon
