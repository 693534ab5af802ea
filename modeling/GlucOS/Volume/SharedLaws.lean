import GlucOS.Volume.StoreLaws

/-! What one task writes into a file, every task reads from it. -/

namespace GlucOS

/-! ## Calls that leave a range of a file alone -/

/-- No write puts bytes into this range. -/
def IoEvent.Spares (store : FileStore) (ino pos count : Nat) : IoEvent → Prop
  | .write i fd _ len _ _ => ∀ task desc, store.files.tasks[i]? = some task →
    task.descFor fd oWronly = some desc → desc.ino = ino →
    pos + count ≤ desc.pos ∨ desc.pos + writeLength desc.pos len ≤ pos
  | _ => True

/-- A file holds these bytes from a position on. -/
def FileStore.Holds (store : FileStore) (ino pos : Nat) (bytes : List UInt8) : Prop :=
  pos + bytes.length ≤ (store.bytes ino).length ∧ part (store.bytes ino) pos bytes.length = bytes

section Held

variable {store next : FileStore} {ino pos : Nat} {bytes : List UInt8}

/-- A part of what a file holds. -/
theorem FileStore.Holds.part {offset len : Nat} (holds : store.Holds ino pos bytes)
    (inside : offset + len ≤ bytes.length) :
    GlucOS.part (store.bytes ino) (pos + offset) len = GlucOS.part bytes offset len := by
  obtain ⟨_, are⟩ := holds
  apply List.ext_getElem?
  intro k
  rw [getElem?_part, getElem?_part]
  by_cases below : k < len
  · rw [if_pos below, if_pos below, ← are, getElem?_part, if_pos (by omega), Nat.add_assoc]
  · rw [if_neg below, if_neg below]

/-- The bytes of a file that was rewritten, and of the others. -/
theorem FileStore.bytes_refilled (store : FileStore) (ino other : Nat) (new : List UInt8)
    (cost : Nat) : (store.refilled ino new cost).bytes other =
      if other = ino then new else store.bytes other := by
  unfold FileStore.bytes FileStore.refilled
  dsimp only
  by_cases same : other = ino
  · rw [if_pos same, same, Function.update_self]
    rfl
  · rw [if_neg same, Function.update_of_ne same]

/-- Bytes put in elsewhere leave them. -/
theorem FileStore.Holds.splice {at_ : Nat} {new : List UInt8} (holds : store.Holds ino pos bytes)
    (apart : pos + bytes.length ≤ at_ ∨ at_ + new.length ≤ pos) :
    pos + bytes.length ≤ (GlucOS.splice 0 (store.bytes ino) at_ new).length ∧
      GlucOS.part (GlucOS.splice 0 (store.bytes ino) at_ new) pos bytes.length = bytes := by
  obtain ⟨inside, are⟩ := holds
  constructor
  · rw [length_splice]
    omega
  · rw [part_splice_apart inside (by omega), are]

/-- A call that spares the range leaves its bytes. -/
theorem storeStep_holds {event : IoEvent} {answer : IoAnswer} (holds : store.Holds ino pos bytes)
    (spares : event.Spares store ino pos bytes.length)
    (stepped : storeStep store event = some (answer, next)) : next.Holds ino pos bytes := by
  cases event with
  | files event =>
    obtain ⟨result, -, same⟩ := Option.map_eq_some_iff.mp stepped
    cases same
    exact holds
  | read i fd buf len mem =>
    obtain ⟨task, -, same⟩ := Option.map_eq_some_iff.mp stepped
    cases is : task.descFor fd oRdonly with
    | none =>
      rw [is] at same
      cases same
      exact holds
    | some desc =>
      rw [is] at same
      dsimp only at same
      by_cases kernel : kvaMin ≤ buf
      · rw [if_pos kernel] at same
        cases same
        exact holds
      · rw [if_neg kernel] at same
        cases same
        exact holds
  | write i fd buf len mem noHeap =>
    obtain ⟨task, here, same⟩ := Option.map_eq_some_iff.mp stepped
    cases is : task.descFor fd oWronly with
    | none =>
      rw [is] at same
      cases same
      exact holds
    | some desc =>
      rw [is] at same
      dsimp only at same
      by_cases kernel : kvaMin ≤ buf
      · rw [if_pos kernel] at same
        cases same
        exact holds
      · rw [if_neg kernel] at same
        by_cases none_ : len = 0
        · rw [if_pos none_] at same
          cases same
          exact holds
        · rw [if_neg none_] at same
          cases same
          unfold FileStore.Holds
          rw [FileStore.bytes_refilled]
          by_cases other : ino = desc.ino
          · subst other
            rw [if_pos rfl]
            apply holds.splice
            rw [length_takenBytes]
            exact spares task desc here is rfl
          · rw [if_neg other]
            exact holds
  | lseek i fd offset whence =>
    obtain ⟨task, -, same⟩ := Option.map_eq_some_iff.mp stepped
    cases is : task.desc fd with
    | none =>
      rw [is] at same
      cases same
      exact holds
    | some desc =>
      rw [is] at same
      dsimp only at same
      cases moves : seekPos desc.pos (store.bytes desc.ino).length offset whence with
      | error code =>
        rw [moves] at same
        cases same
        exact holds
      | ok target =>
        rw [moves] at same
        cases same
        exact holds

/-- A write leaves the bytes that it took. -/
theorem storeStep_writes {i : Nat} {fd : Int} {buf len : Nat} {mem : Memory} {noHeap : Bool}
    {task : FileTask} {desc : FileDesc} (here : store.files.tasks[i]? = some task)
    (is : task.descFor fd oWronly = some desc) (user : buf < kvaMin) (some_ : len ≠ 0) :
    ∃ answer next, storeStep store (.write i fd buf len mem noHeap) = some (answer, next) ∧
      next.Holds desc.ino desc.pos (takenBytes mem buf (writeLength desc.pos len)) := by
  unfold storeStep
  dsimp only
  rw [here, Option.map_some, is]
  dsimp only
  rw [if_neg (Nat.not_le.mpr user), if_neg some_]
  refine ⟨_, _, rfl, ?_⟩
  unfold FileStore.Holds
  rw [FileStore.bytes_refilled, if_pos rfl, length_splice]
  exact ⟨by omega, part_splice⟩

end Held

/-! ## Every run -/

/--
What one task writes into a file is what every task reads there, through any descriptor.

In between the tasks may open, read, write, seek, close, copy and drop files as they like, as long
as no write puts bytes into the same range.
-/
theorem written_is_read {sys last : GfsSystem} {store : FileStore} {files : Nat → Option (List Nat)}
    (shows_ : ShowsFiles sys store files) {i j : Nat} {fd fd' : Int} {buf len buf' len' : Nat}
    {mem mem' : Memory} {noHeap : Bool} {task task' : FileTask} {desc desc' : FileDesc}
    {events : List IoEvent} {outs : List IoAnswer}
    (writer : sys.files.tasks[i]? = some task) (writable : task.descFor fd oWronly = some desc)
    (user : buf < kvaMin) (some_ : len ≠ 0)
    (served : LegalRun storeStep (fun store event => event.Served store) store
      (.write i fd buf len mem noHeap :: events))
    (spared : ∀ answer next,
      storeStep store (.write i fd buf len mem noHeap) = some (answer, next) →
      LegalRun storeStep (fun store event =>
        event.Spares store desc.ino desc.pos (writeLength desc.pos len)) next events)
    (ran : run ioStep sys (.write i fd buf len mem noHeap :: events) = some (outs, last))
    (reader : last.files.tasks[j]? = some task') (readable : task'.descFor fd' oRdonly = some desc')
    (same : desc'.ino = desc.ino) (from_ : desc.pos ≤ desc'.pos)
    (until_ : desc'.pos + len' ≤ desc.pos + writeLength desc.pos len) (user' : buf' < kvaMin)
    (legal : mem'.Readable buf' len') :
    ∃ next, ioStep last (.read j fd' buf' len' mem') = some (((len' : Int), some (mem'.put buf'
      (part (takenBytes mem buf (writeLength desc.pos len)) (desc'.pos - desc.pos) len'))),
        next) := by
  -- The run ends on strings of bytes as well, where the bytes that were written still are.
  have refines := @run_refines _ _ _ _ ioStep storeStep _ _
    (fun _ _ _ related legal => ioStep_same related legal) _ sys store ⟨files, shows_⟩ served
  rw [ran] at refines
  cases ran' : run storeStep store (.write i fd buf len mem noHeap :: events) with
  | none =>
    rw [ran'] at refines
    cases refines
  | some result =>
    obtain ⟨outs', store'⟩ := result
    rw [ran'] at refines
    obtain ⟨-, files', shows'⟩ := refines
    obtain ⟨answer, mid, tail, stepped, tailRan, -⟩ := run_cons_some ran'
    have writer' : store.files.tasks[i]? = some task := by
      rw [shows_.same]
      exact writer
    obtain ⟨answer', mid', stepped', wrote⟩ := storeStep_writes writer' writable user some_
    rw [stepped', Option.some_inj, Prod.mk.injEq] at stepped
    obtain ⟨-, rfl⟩ := stepped
    have holds : store'.Holds desc.ino desc.pos
        (takenBytes mem buf (writeLength desc.pos len)) := by
      apply run_preserves (fun _ _ _ _ kept spares step => storeStep_holds kept spares step)
        events mid' tail store' wrote _ tailRan
      rw [length_takenBytes]
      exact spared answer' mid' stepped'
    -- So the read finds them on the strings, and then on the volume.
    have found : part (store'.bytes desc'.ino) desc'.pos len' =
        part (takenBytes mem buf (writeLength desc.pos len)) (desc'.pos - desc.pos) len' := by
      have inside : desc'.pos - desc.pos + len' ≤
          (takenBytes mem buf (writeLength desc.pos len)).length := by
        rw [length_takenBytes]
        omega
      rw [same, ← holds.part inside]
      congr 1
      omega
    have whole : (part (takenBytes mem buf (writeLength desc.pos len)) (desc'.pos - desc.pos)
        len').length = len' := by
      rw [length_part, length_takenBytes]
      omega
    have reader' : store'.files.tasks[j]? = some task' := by
      rw [shows'.same]
      exact reader
    have answers := @ioStep_same last store' (.read j fd' buf' len' mem') ⟨files', shows'⟩ (by
      intro task'' desc'' here is _
      rw [reader', Option.some_inj] at here
      subst here
      rw [readable, Option.some_inj] at is
      subst is
      rw [found, whole]
      exact legal)
    have spec : storeStep store' (.read j fd' buf' len' mem') =
        some (((len' : Int), some (mem'.put buf'
        (part (takenBytes mem buf (writeLength desc.pos len)) (desc'.pos - desc.pos) len'))),
          store'.moved j task' fd' desc' (desc'.pos + len')) := by
      unfold storeStep
      dsimp only
      rw [reader', Option.map_some, readable]
      dsimp only
      rw [if_neg (Nat.not_le.mpr user'), found, whole]
    rw [spec] at answers
    cases step : ioStep last (.read j fd' buf' len' mem') with
    | none =>
      rw [step] at answers
      cases answers
    | some result =>
      obtain ⟨out, next⟩ := result
      rw [step] at answers
      obtain ⟨rfl, -⟩ := answers
      exact ⟨next, rfl⟩

/-- The task of the empty disk writes a byte, seeks, and reads it. -/
theorem written_is_read_one : ∃ outs last next,
    run ioStep emptySystem [.write 0 0 1 1 openMemory false, .lseek 0 0 0 seekSet] =
        some (outs, last) ∧
      ioStep last (.read 0 0 1 1 openMemory) =
        some ((((1 : Nat) : Int), some (openMemory.put 1 [65])), next) := by
  have served : LegalRun storeStep (fun store event => event.Served store) emptyStore
      [.write 0 0 1 1 openMemory false, .lseek 0 0 0 seekSet] := by
    refine ⟨?_, fun _ _ _ => ⟨trivial, fun _ _ _ => trivial⟩⟩
    intro task desc here is _ _
    cases here
    cases is
    exact ⟨fun _ _ _ => rfl, by decide, fun _ => rfl⟩
  have refines := @run_refines _ _ _ _ ioStep storeStep _ _
    (fun _ _ _ related legal => ioStep_same related legal) _ emptySystem emptyStore
    ⟨_, emptySystem_shows⟩ served
  cases ran : run ioStep emptySystem [.write 0 0 1 1 openMemory false, .lseek 0 0 0 seekSet] with
  | none =>
    rw [ran] at refines
    cases refines
  | some result =>
    obtain ⟨outs, last⟩ := result
    rw [ran] at refines
    obtain ⟨-, files', shows'⟩ := refines
    have tasks : last.files.tasks =
        [⟨0, some ⟨1, 3, 0⟩ :: List.replicate (ofileMax - 1) none⟩] := by
      rw [← shows'.same]
      rfl
    have reader : last.files.tasks[0]? =
        some ⟨0, some ⟨1, 3, 0⟩ :: List.replicate (ofileMax - 1) none⟩ := by
      rw [tasks]
      rfl
    have readable : FileTask.descFor ⟨0, some ⟨1, 3, 0⟩ :: List.replicate (ofileMax - 1) none⟩ 0
        oRdonly = some ⟨1, 3, 0⟩ := rfl
    have writable : FileTask.descFor ⟨0, some ⟨1, 3, 0⟩ :: List.replicate (ofileMax - 1) none⟩ 0
        oWronly = some ⟨1, 3, 0⟩ := rfl
    have user : 1 < kvaMin := by decide
    have inside : 0 + 1 ≤ 0 + writeLength 0 1 := by decide
    have legal : openMemory.Readable 1 1 := fun _ _ => rfl
    obtain ⟨next, found⟩ := written_is_read emptySystem_shows rfl writable user Nat.one_ne_zero
      served (fun _ _ _ => ⟨trivial, fun _ _ _ => trivial⟩) ran reader readable rfl
      (Nat.le_refl 0) inside user legal
    exact ⟨outs, last, next, rfl, found⟩

end GlucOS
