import Javelin.Library.Lang
import Javelin.Library.SourceTree
import Javelin.Library.Throwables
import Javelin.Library.Util
import Javelin.Library.Values

/-!
# The platform library

A small library in source form, for compilations without a class path.
-/

/-!
## `java.io`

Streams that ordinary programs use.
-/

namespace Javelin.Library

/-- Streams that ordinary programs use. -/
def ioSources : List SourceFile :=
  [ sourceOf "java/io/Closeable.java"
    [ "package java.io;",
      "",
      "public interface Closeable extends AutoCloseable \x7b",
      "    void close() throws IOException;",
      "\x7d" ],
    sourceOf "java/io/IOException.java"
    [ "package java.io;",
      "",
      "public class IOException extends Exception \x7b",
      "    public IOException() \x7b\x7d",
      "    public IOException(String message) \x7b",
      "        super(message);",
      "    \x7d",
      "\x7d" ],
    sourceOf "java/io/InputStream.java"
    [ "package java.io;",
      "",
      "public abstract class InputStream implements Closeable \x7b",
      "    public InputStream() \x7b\x7d",
      "    public abstract int read() throws IOException;",
      "    public native int read(byte[] b) throws IOException;",
      "    public native void close() throws IOException;",
      "\x7d" ],
    sourceOf "java/io/OutputStream.java"
    [ "package java.io;",
      "",
      "public abstract class OutputStream implements Closeable \x7b",
      "    public OutputStream() \x7b\x7d",
      "    public abstract void write(int b) throws IOException;",
      "    public native void write(byte[] b) throws IOException;",
      "    public native void flush() throws IOException;",
      "    public native void close() throws IOException;",
      "\x7d" ],
    sourceOf "java/io/PrintStream.java"
    [ "package java.io;",
      "",
      "public class PrintStream extends OutputStream \x7b",
      "    public PrintStream(OutputStream out) \x7b\x7d",
      "    public native void write(int b);",
      "    public native void print(boolean b);",
      "    public native void print(char c);",
      "    public native void print(int i);",
      "    public native void print(long l);",
      "    public native void print(float f);",
      "    public native void print(double d);",
      "    public native void print(char[] s);",
      "    public native void print(String s);",
      "    public native void print(Object obj);",
      "    public native void println();",
      "    public native void println(boolean x);",
      "    public native void println(char x);",
      "    public native void println(int x);",
      "    public native void println(long x);",
      "    public native void println(float x);",
      "    public native void println(double x);",
      "    public native void println(char[] x);",
      "    public native void println(String x);",
      "    public native void println(Object x);",
      "    public native PrintStream printf(String format, Object... args);",
      "\x7d" ],
    sourceOf "java/io/Serializable.java"
    [ "package java.io;",
      "",
      "public interface Serializable \x7b",
      "\x7d" ],
    sourceOf "java/io/UncheckedIOException.java"
    [ "package java.io;",
      "",
      "public class UncheckedIOException extends RuntimeException \x7b",
      "    public UncheckedIOException(String message, IOException cause) \x7b",
      "        super(message);",
      "    \x7d",
      "    public UncheckedIOException(IOException cause) \x7b\x7d",
      "\x7d" ] ]

end Javelin.Library

namespace Javelin.Library

/-- All files of the platform library. -/
def platform : SourceTree :=
  .ofFiles (coreSources ++ throwableSources ++ valueSources ++ utilSources ++ ioSources)

end Javelin.Library
