import Xcpu.Libxcpu.Node

/-!
A set of nodes comes back from its text exactly when the text fits into the memory that the writer
allocates for it and into one read of the reader, which stores each read at the beginning of its
memory.
-/

namespace Xcpu.Libxcpu.Node

open Xcpu.Cells Xcpu.Numerals Xcpu.Overwrite

/-- A node that can be written: no field has a separator, and the number of jobs is not negative. -/
structure Plain (n : Xpnode) : Prop where
  fields : ∀ field ∈ [n.name, n.addr, n.arch, n.status], tab ∉ field ∧ newline ∉ field ∧ 0 ∉ field
  jobs : 0 ≤ n.numjobs ∧ n.numjobs < 2 ^ 31

/-- The text of the file. -/
def text (nodes : List Xpnode) : List UInt8 := nodes.flatMap line

section Line

variable {n : Xpnode} {rest : List (Option UInt8)}

theorem formatInt_digits {value : Int} (positive : 0 ≤ value) : formatInt value = formatNat 10 value.toNat := by
  rw [formatInt, if_neg (by omega)]
  congr 1
  omega

theorem formatInt_apart {value : Int} (positive : 0 ≤ value) {c : UInt8} (other : isDigitIn 10 c = false) :
    c ∉ formatInt value := by
  rw [formatInt_digits positive]
  obtain ⟨whole, -⟩ := formatNat_read (n := value.toNat) (show 1 < 10 by omega) (Nat.le_refl 10)
  intro member
  have digit := List.takeWhile_eq_self_iff.mp whole c member
  rw [other] at digit
  contradiction

theorem toInt_strtoul0 {value : Int} (positive : 0 ≤ value) (small : value < 2 ^ 31) :
    toInt (strtoul0 (formatInt value)) = value := by
  rw [formatInt_digits positive, strtoul0_formatNat (by omega), toInt, Int32.toInt_ofNat_of_lt (by omega)]
  omega

theorem create_line (plain : Plain n) :
    xpNodeCreateFromBuf ((line n).map some ++ rest) = some (some (n, some rest)) := by
  obtain ⟨name_tab, -, name_end⟩ := plain.fields n.name (by simp)
  obtain ⟨addr_tab, -, addr_end⟩ := plain.fields n.addr (by simp)
  obtain ⟨arch_tab, -, arch_end⟩ := plain.fields n.arch (by simp)
  obtain ⟨status_tab, -, status_end⟩ := plain.fields n.status (by simp)
  have digits_line := formatInt_apart plain.jobs.1 (show isDigitIn 10 newline = false by decide)
  have digits_end := formatInt_apart plain.jobs.1 (show isDigitIn 10 0 = false by decide)
  simp only [line, List.map_append, List.map_cons, List.map_nil, List.append_assoc, List.cons_append, List.nil_append]
  simp only [xpNodeCreateFromBuf, strchr_found name_tab name_end, strchr_found addr_tab addr_end,
    strchr_found arch_tab arch_end, strchr_found status_tab status_end, strchr_found digits_line digits_end,
    toInt_strtoul0 plain.jobs.1 plain.jobs.2, Option.bind_eq_bind, Option.bind_some]

theorem line_whole (plain : Plain n) : 0 ∉ line n := by
  have name := (plain.fields n.name (by simp)).2.2
  have addr := (plain.fields n.addr (by simp)).2.2
  have arch := (plain.fields n.arch (by simp)).2.2
  have status := (plain.fields n.status (by simp)).2.2
  have digits := formatInt_apart plain.jobs.1 (show isDigitIn 10 0 = false by decide)
  have tabs : ¬(0 : UInt8) = tab := by decide
  have ends : ¬(0 : UInt8) = newline := by decide
  simp [line, name, addr, arch, status, digits, tabs, ends]

theorem line_ne_nil : line n ≠ [] := by
  intro empty
  have last := congrArg List.length empty
  simp [line] at last

theorem text_whole {nodes : List Xpnode} (plain : ∀ n ∈ nodes, Plain n) : 0 ∉ text nodes := by
  intro member
  obtain ⟨n, inside, here⟩ := List.mem_flatMap.mp member
  exact line_whole (plain n inside) here

theorem listNodes_text (filter : Filter) {nodes : List Xpnode} (plain : ∀ n ∈ nodes, Plain n) (turns : Nat)
    (enough : nodes.length < turns) :
    listNodes filter turns ((text nodes).map some ++ some 0 :: rest) = some (some (nodes.filter filter.add)) := by
  induction nodes generalizing turns with
  | nil =>
      cases turns with
      | zero => omega
      | succ turns => rfl
  | cons n nodes ih =>
      cases turns with
      | zero => omega
      | succ turns =>
          have here := plain n List.mem_cons_self
          have later := ih (fun m member => plain m (List.mem_cons_of_mem n member)) turns
            (by rw [List.length_cons] at enough; omega)
          have whole := line_whole here
          have shape : (text (n :: nodes)).map some ++ some 0 :: rest =
              (line n).map some ++ ((text nodes).map some ++ some 0 :: rest) := by
            rw [text, List.flatMap_cons, List.map_append, List.append_assoc]
            rfl
          have created := @create_line n ((text nodes).map some ++ some 0 :: rest) here
          rw [shape]
          obtain ⟨b, tail, begins⟩ := List.exists_cons_of_ne_nil (@line_ne_nil n)
          rw [begins] at whole created ⊢
          have nonzero := List.ne_of_not_mem_cons whole
          rw [List.map_cons, List.cons_append] at created ⊢
          rw [listNodes, if_neg nonzero.symm]
          simp only [created, later, Option.bind_eq_bind, Option.bind_some, Option.map_some, List.filter_cons]

theorem create_unwritten {begun : List UInt8} (whole : 0 ∉ begun) :
    xpNodeCreateFromBuf (begun.map some ++ none :: rest) = none ∨
      ∃ (node : Xpnode) (after : List UInt8), xpNodeCreateFromBuf (begun.map some ++ none :: rest) =
        some (some (node, some (after.map some ++ none :: rest))) ∧ 0 ∉ after := by
  rw [xpNodeCreateFromBuf]
  rcases @strchr_unwritten begun rest tab whole with endless | ⟨name, behind, found, -, whole⟩
  · exact .inl (by rw [endless]; rfl)
  rw [found]
  simp only [Option.bind_eq_bind, Option.bind_some]
  rcases @strchr_unwritten behind rest tab whole with endless | ⟨addr, behind, found, -, whole⟩
  · exact .inl (by rw [endless]; rfl)
  rw [found]
  simp only [Option.bind_some]
  rcases @strchr_unwritten behind rest tab whole with endless | ⟨arch, behind, found, -, whole⟩
  · exact .inl (by rw [endless]; rfl)
  rw [found]
  simp only [Option.bind_some]
  rcases @strchr_unwritten behind rest tab whole with endless | ⟨status, behind, found, -, whole⟩
  · exact .inl (by rw [endless]; rfl)
  rw [found]
  simp only [Option.bind_some]
  rcases @strchr_unwritten behind rest newline whole with endless | ⟨digits, behind, found, -, whole⟩
  · exact .inl (by rw [endless]; rfl)
  · rw [found]
    exact .inr ⟨_, behind, rfl, whole⟩

theorem listNodes_unwritten (filter : Filter) (turns : Nat) {begun : List UInt8} (whole : 0 ∉ begun) :
    listNodes filter turns (begun.map some ++ none :: rest) = none := by
  induction turns generalizing begun with
  | zero => cases begun <;> rfl
  | succ turns ih =>
      cases begun with
      | nil => rfl
      | cons b begun =>
          have nonzero := List.ne_of_not_mem_cons whole
          have created := @create_unwritten rest (b :: begun) whole
          rw [List.map_cons, List.cons_append] at created ⊢
          rw [listNodes, if_neg nonzero.symm]
          rcases created with undefined | ⟨node, after, goes, whole'⟩
          · rw [undefined]
            rfl
          · rw [goes]
            simp only [Option.bind_eq_bind, Option.bind_some, ih whole', Option.bind_none]

end Line

section Read

variable {fid : Spcfid} {content : List UInt8}

theorem spcReadLoop_eq (room : iohdrsz < fid.msize) (content : List UInt8) (count offset turns n : Nat)
    (enough : count ≤ n + turns) :
    spcReadLoop fid content count offset turns n = (content.drop (offset + n)).take (count - n) := by
  induction turns generalizing n with
  | zero =>
      have spent : count - n = 0 := by omega
      rw [spcReadLoop, spent, List.take_zero]
  | succ turns ih =>
      rw [spcReadLoop]
      split
      · rename_i more
        dsimp only
        let asked := min (min (count - n) (fid.msize - iohdrsz)) (fid.limit (offset + n) + 1)
        have some_asked : 0 < asked := by
          dsimp only [asked]
          omega
        split
        · rename_i eof
          have end_of_file : content.drop (offset + n) = [] := by
            rcases List.take_eq_nil_iff.mp eof with none | empty
            · dsimp only [asked] at some_asked
              omega
            · exact empty
          rw [end_of_file, List.take_nil]
        · rename_i bytes
          let data := (content.drop (offset + n)).take asked
          have positive : 0 < data.length := List.length_pos_iff.mpr bytes
          have bound : data.length ≤ count - n := by
            have short : data.length ≤ asked := List.length_take_le ..
            dsimp only [asked] at short
            omega
          have front : data = (content.drop (offset + n)).take data.length :=
            List.prefix_iff_eq_take.mp (List.take_prefix asked _)
          have split_at : count - n = data.length + (count - (n + data.length)) := by omega
          have later := ih (n + data.length) (by omega)
          have whole : data ++ spcReadLoop fid content count offset turns (n + data.length) =
              (content.drop (offset + n)).take (count - n) := by
            rw [later, split_at, List.take_add, ← front, List.drop_drop, Nat.add_assoc]
          exact whole
      · rename_i full
        have spent : count - n = 0 := by omega
        rw [spent, List.take_zero]

theorem spcRead_eq (room : iohdrsz < fid.msize) (content : List UInt8) (count offset : Nat) :
    spcRead fid content count offset = (content.drop offset).take count := by
  rw [spcRead, spcReadLoop_eq room content count offset count 0 (by omega)]
  rfl

/-- A read at the end of the file ends the loop. -/
theorem readState_end (room : iohdrsz < fid.msize) (turns : Nat) (buf : List (Option UInt8)) (bufsize : Nat) {pos : Nat}
    (done : content.length ≤ pos) : readState fid content (turns + 1) buf bufsize pos = some (buf, pos) := by
  rw [readState, spcRead_eq room, List.drop_eq_nil_of_le done, List.take_nil]
  exact if_pos rfl

theorem realloc_append (size : Nat) {cells first second : List (Option UInt8)} (shape : cells = first ++ second)
    (kept : first.length ≤ size) : ∃ more, realloc cells size = first ++ more := by
  rw [realloc, shape, List.take_append, List.take_of_length_le kept, List.append_assoc]
  exact ⟨_, rfl⟩

theorem readState_short (room : iohdrsz < fid.msize) (short : content.length < fid.iounit) :
    ∃ more, readState fid content (content.length + 1) (List.replicate (fid.iounit + 1) none) fid.iounit 0 =
      some (content.map some ++ more, content.length) ∧ more ≠ [] := by
  have data : spcRead fid content (fid.iounit - 1) 0 = content := by
    rw [spcRead_eq room, List.drop_zero, List.take_of_length_le (by omega)]
  cases content with
  | nil =>
      refine ⟨List.replicate (fid.iounit + 1) none, ?_, by simp⟩
      exact readState_end room 0 _ _ (Nat.le_refl 0)
  | cons b text =>
      rw [readState]
      dsimp only
      have fits : (b :: text).length ≤ (List.replicate (fid.iounit + 1) (none : Option UInt8)).length := by
        rw [List.length_replicate]
        omega
      have grows : fid.iounit - (0 + (b :: text).length) < fid.iounit := by
        rw [List.length_cons]
        rw [List.length_cons] at short
        omega
      rw [data, if_neg (List.cons_ne_nil b text), if_pos fits, if_pos grows]
      have stored : overwrite (List.replicate (fid.iounit + 1) none) 0 ((b :: text).map some) =
          (b :: text).map some ++ (List.replicate (fid.iounit + 1) none).drop (0 + ((b :: text).map some).length) := by
        rw [overwrite, List.take_zero, List.nil_append]
      obtain ⟨more, grown⟩ := realloc_append (fid.iounit + fid.iounit) stored (by rw [List.length_map]; omega)
      have size := length_realloc (overwrite (List.replicate (fid.iounit + 1) none) 0 ((b :: text).map some))
        (fid.iounit + fid.iounit)
      refine ⟨more, ?_, ?_⟩
      · rw [grown]
        have ends := @readState_end fid (b :: text) room text.length ((b :: text).map some ++ more)
          (fid.iounit + fid.iounit) (0 + (b :: text).length) (by omega)
        rw [Nat.zero_add] at ends ⊢
        exact ends
      · rintro rfl
        rw [grown, List.append_nil, List.length_map] at size
        omega

/-- A string that was begun, with a cell behind it that was never written. -/
def Begun (buf : List (Option UInt8)) (length : Nat) : Prop :=
  ∃ (begun : List UInt8) (more : List (Option UInt8)),
    buf = begun.map some ++ none :: more ∧ begun.length = length ∧ 0 ∉ begun

theorem Begun.overwrite {buf : List (Option UInt8)} {length : Nat} {data : List UInt8} (begun : Begun buf length)
    (whole : 0 ∉ data) (fits : data.length ≤ length) : Begun (overwrite buf 0 (data.map some)) length := by
  obtain ⟨old, more, rfl, rfl, plain⟩ := begun
  refine ⟨data ++ old.drop data.length, more, ?_, ?_, ?_⟩
  · rw [Overwrite.overwrite, List.take_zero, List.nil_append, List.length_map, Nat.zero_add,
      List.drop_append_of_le_length (by rw [List.length_map]; exact fits), List.map_append, List.map_drop,
      List.append_assoc]
  · rw [List.length_append, List.length_drop]
    omega
  · intro member
    rcases List.mem_append.mp member with new | kept
    · exact whole new
    · exact plain (List.mem_of_mem_drop kept)

theorem Begun.realloc {buf : List (Option UInt8)} {length : Nat} (begun : Begun buf length) {size : Nat}
    (kept : length < size) : Begun (realloc buf size) length := by
  obtain ⟨old, more, rfl, rfl, plain⟩ := begun
  have shape : old.map some ++ none :: more = (old.map some ++ [none]) ++ more := by
    rw [List.append_assoc]
    rfl
  obtain ⟨more', grown⟩ := realloc_append size shape (by simp; omega)
  exact ⟨old, more', by rw [grown, List.append_assoc]; rfl, rfl, plain⟩

theorem readState_long (room : iohdrsz < fid.msize) (unit : 1 < fid.iounit) (whole : 0 ∉ content)
    (turns bufsize pos : Nat) {buf : List (Option UInt8)} (begun : Begun buf (fid.iounit - 1))
    (counted : fid.iounit ≤ pos ∨ fid.iounit ≤ pos + 1 ∧ pos < content.length) :
    readState fid content turns buf bufsize pos = none ∨
      ∃ buf' pos', readState fid content turns buf bufsize pos = some (buf', pos') ∧
        Begun buf' (fid.iounit - 1) ∧ fid.iounit ≤ pos' := by
  induction turns generalizing buf bufsize pos with
  | zero => exact .inl rfl
  | succ turns ih =>
      rw [readState, spcRead_eq room]
      dsimp only
      split
      · rename_i eof
        refine .inr ⟨buf, pos, rfl, begun, counted.resolve_right ?_⟩
        rintro ⟨-, more⟩
        rcases List.take_eq_nil_iff.mp eof with none | spent
        · omega
        · have done := List.drop_eq_nil_iff.mp spent
          omega
      · rename_i bytes
        have brought := List.length_pos_iff.mpr bytes
        split
        · have plain : 0 ∉ (content.drop pos).take (fid.iounit - 1) := fun member =>
            whole (List.mem_of_mem_drop (List.mem_of_mem_take member))
          have stored := begun.overwrite plain (List.length_take_le ..)
          split
          · exact ih _ _ (stored.realloc (by omega)) (.inl (by omega))
          · exact ih _ _ stored (.inl (by omega))
        · exact .inl rfl

end Read

theorem listnet_long {fid : Spcfid} {content : List UInt8} (room : iohdrsz < fid.msize) (unit : 1 < fid.iounit)
    (whole : 0 ∉ content) (long : fid.iounit ≤ content.length) (filter : Filter) :
    xpNodesetListnetFilter fid content filter = none := by
  have listed : ∀ {buf : List (Option UInt8)} {pos : Nat}, Begun buf (fid.iounit - 1) → fid.iounit ≤ pos →
      (if pos < buf.length then listNodes filter buf.length (buf.set pos (some 0)) else none) = none := by
    rintro buf pos ⟨begun, more, rfl, size, plain⟩ beyond
    split
    · have shape : (begun.map some ++ none :: more).set pos (some 0) =
          begun.map some ++ none :: more.set (pos - begun.length - 1) (some 0) := by
        obtain ⟨k, rfl⟩ : ∃ k, pos = begun.length + (k + 1) := ⟨pos - begun.length - 1, by omega⟩
        rw [List.set_append_right _ _ (by rw [List.length_map]; omega), List.length_map]
        have shift : begun.length + (k + 1) - begun.length = k + 1 := by omega
        rw [shift, List.set_cons_succ]
        rfl
      rw [shape]
      exact listNodes_unwritten filter _ plain
    · rfl
  have data : spcRead fid content (fid.iounit - 1) 0 = content.take (fid.iounit - 1) := by
    rw [spcRead_eq room, List.drop_zero]
  have size : (content.take (fid.iounit - 1)).length = fid.iounit - 1 := by
    rw [List.length_take]
    omega
  have some_data : content.take (fid.iounit - 1) ≠ [] := by
    intro none
    rw [none, List.length_nil] at size
    omega
  have fits : (content.take (fid.iounit - 1)).length ≤
      (List.replicate (fid.iounit + 1) (none : Option UInt8)).length := by
    rw [size, List.length_replicate]
    omega
  have stored : Begun (overwrite (List.replicate (fid.iounit + 1) none) 0
      ((content.take (fid.iounit - 1)).map some)) (fid.iounit - 1) := by
    refine ⟨content.take (fid.iounit - 1), [none], ?_, size, fun member => whole (List.mem_of_mem_take member)⟩
    rw [overwrite, List.take_zero, List.nil_append, List.length_map, size, List.drop_replicate]
    have two : fid.iounit + 1 - (0 + (fid.iounit - 1)) = 2 := by omega
    rw [two]
    rfl
  have read : readState fid content (content.length + 1) (List.replicate (fid.iounit + 1) none) fid.iounit 0 =
      readState fid content content.length (realloc (overwrite (List.replicate (fid.iounit + 1) none) 0
        ((content.take (fid.iounit - 1)).map some)) (fid.iounit + fid.iounit)) (fid.iounit + fid.iounit)
        (fid.iounit - 1) := by
    rw [readState]
    dsimp only
    rw [data, if_neg some_data, if_pos fits, size, if_pos (by omega), Nat.zero_add]
  have grown : Begun (realloc (overwrite (List.replicate (fid.iounit + 1) none) 0
      ((content.take (fid.iounit - 1)).map some)) (fid.iounit + fid.iounit)) (fid.iounit - 1) :=
    stored.realloc (by omega)
  rw [xpNodesetListnetFilter, read]
  rcases readState_long room unit whole content.length (fid.iounit + fid.iounit) (fid.iounit - 1) grown
      (.inr ⟨by omega, by omega⟩) with undefined | ⟨buf, pos, ended, begun, beyond⟩
  · rw [undefined]
    rfl
  · rw [ended]
    exact listed begun beyond

theorem listnet_short {fid : Spcfid} {nodes : List Xpnode} (room : iohdrsz < fid.msize)
    (plain : ∀ n ∈ nodes, Plain n) (short : (text nodes).length < fid.iounit) (filter : Filter) :
    xpNodesetListnetFilter fid (text nodes) filter = some (some (nodes.filter filter.add)) := by
  obtain ⟨more, read, some_more⟩ := readState_short room short
  obtain ⟨cell, more, rfl⟩ := List.exists_cons_of_ne_nil some_more
  have inside : (text nodes).length < ((text nodes).map some ++ cell :: more).length := by simp
  have terminated : ((text nodes).map some ++ cell :: more).set (text nodes).length (some 0) =
      (text nodes).map some ++ some 0 :: more := by
    rw [List.set_append_right _ _ (by rw [List.length_map]), List.length_map, Nat.sub_self]
    rfl
  have lines : nodes.length ≤ (text nodes).length := by
    clear plain short read inside terminated
    induction nodes with
    | nil => exact Nat.zero_le _
    | cons n nodes ih =>
        have nonempty := List.length_pos_iff.mpr (@line_ne_nil n)
        rw [text, List.flatMap_cons, List.length_append, List.length_cons]
        rw [text] at ih
        omega
  rw [xpNodesetListnetFilter, read]
  simp only [Option.bind_eq_bind, Option.bind_some]
  rw [if_pos inside, terminated]
  exact listNodes_text filter plain _ (by omega)

/-- A read unit of one byte leaves nothing to ask for. -/
theorem listnet_unit {fid : Spcfid} {content : List UInt8} (room : iohdrsz < fid.msize) (unit : fid.iounit = 1)
    (filter : Filter) : xpNodesetListnetFilter fid content filter = some (some []) := by
  have data : spcRead fid content (fid.iounit - 1) 0 = [] := by
    rw [spcRead_eq room, unit]
    rfl
  rw [xpNodesetListnetFilter, readState]
  dsimp only
  rw [data, if_pos rfl, unit]
  rfl

section Write

variable {n : Xpnode} {nodes : List Xpnode}

theorem xpNodeToString_eq (plain : Plain n) :
    xpNodeToString n = if n.numjobs < 10 ^ 9 then some (some (line n)) else none := by
  have jobs := plain.jobs.1
  have digits := formatInt_length_le n.numjobs (show 1 < 9 by omega)
  have size : (line n).length = n.name.length + n.addr.length + n.arch.length + n.status.length +
      (formatInt n.numjobs).length + 5 := by
    simp only [line, List.length_append, List.length_cons, List.length_nil]
    omega
  rw [xpNodeToString, if_neg (by omega)]
  dsimp only
  by_cases small : n.numjobs < 10 ^ 9
  · have short := digits.mpr ⟨by omega, small⟩
    rw [if_pos small, if_pos (by omega)]
  · have long : ¬(formatInt n.numjobs).length ≤ 9 := fun short => small (digits.mp short).2
    rw [if_neg small, if_neg (by omega)]

theorem appendNodes_eq (size : Nat) (ret : List UInt8) (fits : ret.length < size) (plain : ∀ n ∈ nodes, Plain n) :
    appendNodes size size ret nodes =
      if (∀ n ∈ nodes, n.numjobs < 10 ^ 9) ∧ (ret ++ text nodes).length < size then
        some (some (ret ++ text nodes))
      else none := by
  induction nodes generalizing ret with
  | nil =>
      have none : text [] = [] := rfl
      rw [appendNodes, none, List.append_nil, if_pos ⟨fun n member => absurd member List.not_mem_nil, fits⟩]
  | cons n nodes ih =>
      have whole : ret ++ text (n :: nodes) = (ret ++ line n) ++ text nodes := by
        rw [text, List.flatMap_cons, List.append_assoc]
        rfl
      have longer : (ret ++ line n).length ≤ (ret ++ text (n :: nodes)).length := by
        have more := @List.length_append _ (ret ++ line n) (text nodes)
        rw [whole]
        omega
      have both : (ret ++ line n).length = ret.length + (line n).length := List.length_append
      rw [appendNodes, xpNodeToString_eq (plain n List.mem_cons_self)]
      by_cases small : n.numjobs < 10 ^ 9
      · rw [if_pos small]
        simp only [Option.bind_eq_bind, Option.bind_some]
        split
        · rename_i grows
          have beyond : ¬(ret ++ line n).length + 1 ≤ ret.length + (line n).length := by omega
          rw [strcat, if_neg beyond, Option.bind_none, if_neg]
          rintro ⟨-, short⟩
          omega
        · rename_i room
          rw [strcat]
          by_cases inside : (ret ++ line n).length + 1 ≤ size
          · rw [if_pos inside, Option.bind_some, ih (ret ++ line n) (by omega)
              fun m member => plain m (List.mem_cons_of_mem n member), whole]
            simp only [List.forall_mem_cons, small, true_and]
          · rw [if_neg inside, Option.bind_none, if_neg]
            rintro ⟨-, short⟩
            omega
      · rw [if_neg small, if_neg]
        · rfl
        · rintro ⟨all, -⟩
          exact small (all n List.mem_cons_self)

/-- The memory that is allocated for the first of the nodes. -/
def allocated (nodes : List Xpnode) : Int :=
  match nodes with
  | [] => 1
  | n :: rest => toInt ((line n).length * (n :: rest).length * 2)

theorem xpNodesetToString_eq (plain : ∀ n ∈ nodes, Plain n) (some_nodes : nodes ≠ []) (positive : 0 ≤ allocated nodes) :
    xpNodesetToString nodes =
      if (∀ n ∈ nodes, n.numjobs < 10 ^ 9) ∧ ((text nodes).length : Int) < allocated nodes then
        some (some (text nodes))
      else none := by
  obtain ⟨n, rest, rfl⟩ := List.exists_cons_of_ne_nil some_nodes
  have here := plain n List.mem_cons_self
  have whole : text (n :: rest) = line n ++ text rest := by rw [text, List.flatMap_cons, text]
  rw [allocated] at positive ⊢
  rw [xpNodesetToString, xpNodeToString_eq here]
  by_cases small : n.numjobs < 10 ^ 9
  · rw [if_pos small]
    simp only [Option.bind_eq_bind, Option.bind_some]
    rw [if_neg (by omega), strcat, List.nil_append]
    by_cases inside : (line n).length + 1 ≤ (toInt ((line n).length * (n :: rest).length * 2)).toNat
    · rw [if_pos inside, Option.bind_some,
        appendNodes_eq _ (line n) (by omega) fun m member => plain m (List.mem_cons_of_mem n member), ← whole]
      simp only [List.forall_mem_cons, small, true_and]
      congr 1
      rw [eq_iff_iff]
      exact and_congr_right fun _ => by omega
    · rw [if_neg inside, Option.bind_none, if_neg]
      rintro ⟨-, short⟩
      rw [whole, List.length_append] at short
      omega
  · rw [if_neg small, if_neg]
    · rfl
    · rintro ⟨all, -⟩
      exact small (all n List.mem_cons_self)

theorem xpNodesetToString_null (negative : allocated nodes < 0) {served : Option (List UInt8)}
    (written : xpNodesetToString nodes = some served) : served = none := by
  cases nodes with
  | nil => exact absurd negative (by decide)
  | cons n rest =>
      rw [allocated] at negative
      rw [xpNodesetToString] at written
      obtain ⟨str, string, written⟩ := Option.bind_eq_some_iff.mp written
      cases str with
      | none => exact (Option.some.inj written).symm
      | some str =>
          have same : str = line n := by
            rw [xpNodeToString] at string
            split at string
            · cases string
            · dsimp only at string
              split at string
              · cases string
                rfl
              · cases string
          simp only [same, if_pos negative, Option.some.injEq] at written
          exact written.symm

end Write

/-- The transfer of a set of nodes. -/
theorem nodes_transferred (fid : Spcfid) (room : iohdrsz < fid.msize) (unit : 0 < fid.iounit) (nodes : List Xpnode)
    (plain : ∀ n ∈ nodes, Plain n) :
    (∃ served, xpNodesetToString nodes = some served ∧
        ∀ filter, xpNodesetListnetFilter fid (served.getD []) filter = some (some (nodes.filter filter.add))) ↔
      (∀ n ∈ nodes, n.numjobs < 10 ^ 9) ∧ ((text nodes).length : Int) < allocated nodes ∧
        (text nodes).length < fid.iounit := by
  have every : nodes.filter (Filter.add {}) = nodes := by
    rw [List.filter_eq_self]
    exact fun n _ => rfl
  have nothing : ∀ filter, xpNodesetListnetFilter fid [] filter = some (some []) := by
    intro filter
    have empty := @listnet_short fid [] room (fun n member => absurd member List.not_mem_nil) unit filter
    exact empty
  by_cases empty : nodes = []
  · subst nodes
    refine iff_of_true ⟨none, rfl, nothing⟩ ⟨fun n member => absurd member List.not_mem_nil, ?_, unit⟩
    decide
  · constructor
    · rintro ⟨served, written, listed⟩
      by_cases positive : 0 ≤ allocated nodes
      · rw [xpNodesetToString_eq plain empty positive] at written
        split at written
        · rename_i fits
          cases written
          refine ⟨fits.1, fits.2, ?_⟩
          by_contra long
          have all := listed {}
          rw [every, Option.getD_some] at all
          by_cases one : fid.iounit = 1
          · rw [listnet_unit room one] at all
            cases all
            exact empty rfl
          · rw [listnet_long room (by omega) (text_whole plain) (by omega)] at all
            cases all
        · cases written
      · cases xpNodesetToString_null (by omega) written
        have all := listed {}
        rw [every, Option.getD_none, nothing] at all
        cases all
        exact absurd rfl empty
    · rintro ⟨small, fits, short⟩
      have positive : 0 ≤ allocated nodes := by omega
      refine ⟨some (text nodes), ?_, fun filter => listnet_short room plain short filter⟩
      rw [xpNodesetToString_eq plain empty positive, if_pos ⟨small, fits⟩]

/-- The node `n` at `a`, of the architecture `x`, that is up. -/
def oneNode : Xpnode := { name := [110], addr := [97], arch := [120], status := [117, 112], numjobs := 0 }

theorem oneNode_plain : ∀ n ∈ [oneNode, oneNode], Plain n := by
  intro n member
  have same : n = oneNode := by simpa using member
  subst n
  exact ⟨by decide, by decide⟩

theorem nodes_transferred_two :
    (∃ served, xpNodesetToString [oneNode, oneNode] = some served ∧
        ∀ filter, xpNodesetListnetFilter ⟨64, 128, fun _ => 4⟩ (served.getD []) filter =
          some (some ([oneNode, oneNode].filter filter.add))) ↔
      (∀ n ∈ [oneNode, oneNode], n.numjobs < 10 ^ 9) ∧
        ((text [oneNode, oneNode]).length : Int) < allocated [oneNode, oneNode] ∧
        (text [oneNode, oneNode]).length < 64 :=
  nodes_transferred ⟨64, 128, fun _ => 4⟩ (by decide) (by decide) [oneNode, oneNode] oneNode_plain

/-- A text of two reads: the second one is stored over the first. -/
theorem second_read_lost : xpNodesetToString [oneNode] = some (some (text [oneNode])) ∧
    xpNodesetListnetFilter ⟨8, 128, fun _ => 100⟩ (text [oneNode]) {} = none := by
  constructor <;> decide

end Xcpu.Libxcpu.Node
