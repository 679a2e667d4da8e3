/-!
# The runtime in C

Programs that are compiled to objects need the standard functions as well. This is their
implementation for the linker.
-/

namespace ExprLang.Registry

def runtimeLines : List String :=
  ["#include <stdint.h>",
   "#include <stdio.h>",
   "",
   "int64_t printint(int64_t n) \x7b",
   "    printf(\"%lld\", (long long)n);",
   "    return n;",
   "\x7d",
   "",
   "int64_t printintln(int64_t n) \x7b",
   "    printf(\"%lld\\n\", (long long)n);",
   "    return n;",
   "\x7d",
   "",
   "int64_t printchar(int64_t c) \x7b",
   "    putchar((int)c);",
   "    return c;",
   "\x7d",
   "",
   "int64_t printcharln(int64_t c) \x7b",
   "    putchar((int)c);",
   "    putchar('\\n');",
   "    return c;",
   "\x7d",
   "",
   "int64_t readchar(int64_t unused) \x7b",
   "    (void)unused;",
   "    char c;",
   "    if (scanf(\" %c\", &c) != 1) \x7b",
   "        return -1;",
   "    \x7d",
   "    return c;",
   "\x7d",
   ""]

def runtimeSource : String :=
  String.intercalate "\n" runtimeLines

end ExprLang.Registry
