import Signpost.Cli.Arguments

namespace Signpost.Cli

def Topic.usage : Topic → String
  | top => "routerunner [OPTIONS] <COMMAND>"
  | check => "routerunner check"
  | routes => "routerunner routes"
  | find => "routerunner match <METHOD> <URI>"
  | cache => "routerunner cache <COMMAND>"
  | cacheStatus => "routerunner cache status"
  | cacheClear => "routerunner cache clear"
  | help => "routerunner help [COMMAND]..."
  | cacheHelp => "routerunner cache help [COMMAND]..."

def Topic.summary : Topic → String
  | top => "Compile, inspect and query route definition files"
  | check => "Compile the route file and report the first error"
  | routes => "Print the compiled route table"
  | find => "Show which route a request resolves to"
  | cache => "Inspect or clear the route cache"
  | cacheStatus => "Report whether the cache holds a current entry"
  | cacheClear => "Remove the cached entry"
  | help | cacheHelp => "Print this message or the help of the given subcommand(s)"

abbrev Sections := List (String × List (String × String))

def helpEntry : String × String :=
  ("help", Topic.help.summary)

def optionSection : String × List (String × String) :=
  ("Options", [("-h, --help", "Print help")])

def Topic.sections : Topic → Sections
  | top =>
    [("Commands", [("check", check.summary), ("routes", routes.summary), ("match", find.summary),
        ("cache", cache.summary), helpEntry]),
      ("Options", [("-c, --config <CONFIG>", "Configuration file (TOML)"),
        ("-r, --routes <ROUTES>", "Route definition file, overrides `routes.file`"),
        ("    --no-cache", "Parse the route file directly, ignoring the cache"),
        ("-h, --help", "Print help")])]
  | find =>
    [("Arguments", [("<METHOD>", "HTTP method, e.g. GET"), ("<URI>", "Request URI, e.g. /users/42")]),
      optionSection]
  | cache =>
    [("Commands", [("status", cacheStatus.summary), ("clear", cacheClear.summary), helpEntry]),
      optionSection]
  | help | cacheHelp => [("Arguments", [("[COMMAND]...", "Print help for the subcommand(s)")])]
  | _ => [optionSection]

def sectionText : String × List (String × String) → String
  | (title, entries) =>
    let width := (entries.map (·.1.length)).foldl max 0
    let line (entry : String × String) : String :=
      "  " ++ entry.1 ++ "".pushn ' ' (width - entry.1.length) ++ "  " ++ entry.2 ++ "\n"
    "\n" ++ title ++ ":\n" ++ String.join (entries.map line)

def Topic.text (t : Topic) : String :=
  t.summary ++ "\n\nUsage: " ++ t.usage ++ "\n" ++ String.join (t.sections.map sectionText)

end Signpost.Cli
