import Mathlib.Data.List.Basic
import Mathlib.Tactic.Common

/-!
# Attempts at a server

A server takes requests one at a time, answers each, and may change with it:
`submit : P → C → P × R`. A client holds candidates, for each of which it may or may not form a
request.

* `first` — submit for the first candidate that gives a request.
* `every` — submit for every candidate that gives one, in order.
* `logged` — the same server, which keeps a log of its answers.
* `recorded` — the same server, which keeps a record of the requests.

`first_logged` and `every_logged` say what a client leaves in the log: the answers to exactly the
requests it has submitted. `every_eq` says which these are, as do `first_recorded` and
`every_recorded`.
-/

namespace Lib

variable {A C P R : Type*}

/-- What a server answers to some requests, one after the other. -/
def answers (submit : P → C → P × R) : List C → P → List R
  | [], _ => []
  | c :: cs, p => (submit p c).2 :: answers submit cs (submit p c).1

/-- Submit for the first candidate that gives a request; the candidate and the answer. -/
def first (submit : P → C → P × R) (request : A → Option C) :
    List A → P → P × Option (A × R)
  | [], p => (p, none)
  | a :: as, p =>
      match request a with
      | none => first submit request as p
      | some c => ((submit p c).1, some (a, (submit p c).2))

/-- Submit for every candidate that gives a request; the candidates and the answers. -/
def every (submit : P → C → P × R) (request : A → Option C) :
    List A → P → P × List (A × R)
  | [], p => (p, [])
  | a :: as, p =>
      match request a with
      | none => every submit request as p
      | some c =>
          let rest := every submit request as (submit p c).1
          (rest.1, (a, (submit p c).2) :: rest.2)

/-- A server with a log of its answers. -/
def logged (submit : P → C → P × R) (p : P × List R) (c : C) : (P × List R) × R :=
  (((submit p.1 c).1, p.2 ++ [(submit p.1 c).2]), (submit p.1 c).2)

/-- A server with a record of the requests. -/
def recorded (submit : P → C → P × R) (p : P × List C) (c : C) : (P × List C) × R :=
  (((submit p.1 c).1, p.2 ++ [c]), (submit p.1 c).2)

variable {submit : P → C → P × R} {request : A → Option C}

/-- `every` submits the requests of all candidates that give one. -/
theorem every_eq (as : List A) (p : P) :
    (every submit request as p).2.map Prod.snd = answers submit (as.filterMap request) p := by
  induction as generalizing p with
  | nil => rfl
  | cons a as ih =>
      rcases hrequest : request a with _ | c
      · rw [List.filterMap_cons_none hrequest]
        simp only [every, hrequest, ih]
      · rw [List.filterMap_cons_some hrequest]
        simp only [every, hrequest, List.map_cons, answers, ih]

/-- **The log of `first`**: one answer, if any. -/
theorem first_logged (as : List A) (p : P) (log : List R) :
    first (logged submit) request as (p, log) =
      (((first submit request as p).1,
        log ++ ((first submit request as p).2.map Prod.snd).toList),
        (first submit request as p).2) := by
  induction as with
  | nil => simp [first]
  | cons a as ih =>
      rcases hrequest : request a with _ | c
      · simp only [first, hrequest, ih]
      · simp only [first, hrequest, logged, Option.map_some, Option.toList_some]

/-- **The log of `every`**: one answer for each request. -/
theorem every_logged (as : List A) (p : P) (log : List R) :
    every (logged submit) request as (p, log) =
      (((every submit request as p).1, log ++ (every submit request as p).2.map Prod.snd),
        (every submit request as p).2) := by
  induction as generalizing p log with
  | nil => simp [every]
  | cons a as ih =>
      rcases hrequest : request a with _ | c
      · simp only [every, hrequest, ih]
      · simp only [every, hrequest, logged, ih, List.map_cons, List.append_assoc,
          List.singleton_append]

/-- **The record of `first`**: the first request. -/
theorem first_recorded (as : List A) (p : P) (cs : List C) :
    first (recorded submit) request as (p, cs) =
      (((first submit request as p).1, cs ++ (as.filterMap request).head?.toList),
        (first submit request as p).2) := by
  induction as with
  | nil => simp [first]
  | cons a as ih =>
      rcases hrequest : request a with _ | c
      · rw [List.filterMap_cons_none hrequest]
        simp only [first, hrequest, ih]
      · rw [List.filterMap_cons_some hrequest]
        simp only [first, hrequest, recorded, List.head?_cons, Option.toList_some]

/-- **The record of `every`**: all requests. -/
theorem every_recorded (as : List A) (p : P) (cs : List C) :
    every (recorded submit) request as (p, cs) =
      (((every submit request as p).1, cs ++ as.filterMap request),
        (every submit request as p).2) := by
  induction as generalizing p cs with
  | nil => simp [every]
  | cons a as ih =>
      rcases hrequest : request a with _ | c
      · rw [List.filterMap_cons_none hrequest]
        simp only [every, hrequest, ih]
      · rw [List.filterMap_cons_some hrequest]
        simp only [every, hrequest, recorded, ih, List.append_assoc, List.singleton_append]

theorem answers_eq_nil_iff {cs : List C} {p : P} : answers submit cs p = [] ↔ cs = [] := by
  cases cs with
  | nil => simp [answers]
  | cons c cs => simp [answers]

end Lib
