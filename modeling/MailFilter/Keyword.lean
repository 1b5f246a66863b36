import MailFilter.Text.Case

/-!
# Keywords

The names of commands and tests that have a meaning, in any letter case.
-/

namespace MailFilter

/-- A name of a command or a test. -/
inductive Keyword where
  | require
  | ifCommand
  | elsifCommand
  | elseCommand
  | stop
  | keep
  | discard
  | redirect
  | fileinto
  | reject
  | ereject
  | vacation
  | setflag
  | addflag
  | removeflag
  | setCommand
  | notify
  | includeCommand
  | returnCommand
  | globalCommand
  | addheader
  | deleteheader
  | address
  | allof
  | anyof
  | envelope
  | existsTest
  | falseTest
  | header
  | notTest
  | size
  | trueTest
  | body
  | date
  | currentdate
  | string
  | hasflag
  | mailboxexists
  | duplicate
  | spamtest
  | virustest
  | environment
  | validNotifyMethod
  | notifyMethodCapability
  deriving DecidableEq, Repr

namespace Keyword

def all : List Keyword :=
  [require, ifCommand, elsifCommand, elseCommand, stop, keep, discard, redirect, fileinto, reject,
   ereject, vacation, setflag, addflag, removeflag, setCommand, notify, includeCommand,
   returnCommand, globalCommand, addheader, deleteheader, address, allof, anyof, envelope,
   existsTest, falseTest, header, notTest, size, trueTest, body, date, currentdate, string, hasflag,
   mailboxexists, duplicate, spamtest, virustest, environment, validNotifyMethod,
   notifyMethodCapability]

def text : Keyword → String
  | require => "require"
  | ifCommand => "if"
  | elsifCommand => "elsif"
  | elseCommand => "else"
  | stop => "stop"
  | keep => "keep"
  | discard => "discard"
  | redirect => "redirect"
  | fileinto => "fileinto"
  | reject => "reject"
  | ereject => "ereject"
  | vacation => "vacation"
  | setflag => "setflag"
  | addflag => "addflag"
  | removeflag => "removeflag"
  | setCommand => "set"
  | notify => "notify"
  | includeCommand => "include"
  | returnCommand => "return"
  | globalCommand => "global"
  | addheader => "addheader"
  | deleteheader => "deleteheader"
  | address => "address"
  | allof => "allof"
  | anyof => "anyof"
  | envelope => "envelope"
  | existsTest => "exists"
  | falseTest => "false"
  | header => "header"
  | notTest => "not"
  | size => "size"
  | trueTest => "true"
  | body => "body"
  | date => "date"
  | currentdate => "currentdate"
  | string => "string"
  | hasflag => "hasflag"
  | mailboxexists => "mailboxexists"
  | duplicate => "duplicate"
  | spamtest => "spamtest"
  | virustest => "virustest"
  | environment => "environment"
  | validNotifyMethod => "valid_notify_method"
  | notifyMethodCapability => "notify_method_capability"

def ofName? (name : String) : Option Keyword :=
  let lowered := Text.lower name
  all.find? (·.text == lowered)

/-- A name in its usual form: keywords in lower case, other names as they are. -/
def normalName (name : String) : String :=
  match ofName? name with
  | some _ => Text.lower name
  | none => name

theorem mem_all (k : Keyword) : k ∈ all := by cases k <;> decide

theorem lower_eq_text {name : String} {k : Keyword} (h : ofName? name = some k) :
    Text.lower name = k.text := by
  have := List.find?_some h
  exact (beq_iff_eq.1 this).symm

end Keyword

end MailFilter
